import Qvd.Interpolation

/-!
The configuration as the HKD resolves it and as the other programs do, against what its
three levels mean: the table configs of the database over the configuration file over the
defaults, and every reference replaced by the value of the key it names.
-/
namespace Qvd.ConfigResolvers

open LineText Interpolation AcyclicRelation

abbrev Table := List (Text × Text)

/-- What the resolvers read. The rows of configs are those of the global tenant. -/
structure Sources where
  defaults : Table
  file : Table
  configs : Table
  sslConfigs : Table

section Hkd

/-- A property of a Config::Properties object, which refuses an empty key. -/
def getProperty (props : Table) (k : Text) : Option Text :=
  if k = [] then none else props.lookup k

/-- A file read over the defaults. -/
def loadBaseConfig (s : Sources) : Table := s.file ++ s.defaults

/-- The rows of the database put one after the other into the properties. -/
def reload (rows props : Table) : Table :=
  rows.foldl (fun props row => if row.1 = [] then props else row :: props) props

/-- `${{}` stands for the two characters that begin a reference. -/
def escape (name : Text) : Option Text :=
  if name = ['{'] then some ['$', '{'] else none

/-- QVD::HKD::Config::_cfg, to a depth of references. -/
def hkdCfg (s : Sources) : ℕ → Text → Option Text :=
  resolve (getProperty (reload s.configs (loadBaseConfig s))) escape

end Hkd

section Cfg

/-- QVD::Config::Core::core_cfg, which knows no `${{}`. -/
def coreCfg (s : Sources) : ℕ → Text → Option Text :=
  resolve (getProperty (loadBaseConfig s)) (fun _ => none)

/-- The value of the hash reload makes of the rows. -/
def dbValue (s : Sources) (k : Text) : Option Text := s.configs.reverse.lookup k

/-- The row of ssl_configs, asked for keys of one prefix. -/
def sslValue (s : Sources) (k : Text) : Option Text :=
  if "l7r.ssl.".toList.isPrefixOf k then s.sslConfigs.lookup k else none

/-- QVD::Config::cfg for the global tenant, to a depth of references. -/
def cfg (s : Sources) : ℕ → Text → Option Text
  | 0, _ => none
  | n + 1, k =>
    match sslValue s k with
    | some v => some v
    | none =>
      match dbValue s k with
      | some t => interpolate (cfg s n) t
      | none => (coreCfg s n k).bind (interpolate (cfg s n))

end Cfg

section Meaning

/-- Database over file over default. -/
def raw (s : Sources) (k : Text) : Option Text :=
  (dbValue s k).orElse (fun _ => getProperty (loadBaseConfig s) k)

/-- What a configuration says about a key: its text with the values of the keys it refers to. -/
def Meaning (s : Sources) : Text → Text → Prop :=
  Gives (resolve (raw s) escape)

structure WellFormed (s : Sources) : Prop where
  acyclic : Acyclic (Refers (raw s) escape)
  resolvable : ∀ k name, Refers (raw s) escape k name → raw s name ≠ none

/-- Both resolvers give every key its meaning. -/
def Agree (s : Sources) : Prop :=
  (∀ k v, Gives (hkdCfg s) k v ↔ Meaning s k v) ∧ (∀ k v, Gives (cfg s) k v ↔ Meaning s k v)

/-- The text whose references cfg replaces: a key that configs has not is resolved over file
and defaults first. -/
def CfgText (s : Sources) (k t : Text) : Prop :=
  dbValue s k = some t ∨ (dbValue s k = none ∧ Gives (coreCfg s) k t)

/-- A key that is not in ssl_configs has a text that refers to the name. -/
def CfgRefers (s : Sources) (k name : Text) : Prop :=
  sslValue s k = none ∧ ∃ t, CfgText s k t ∧ name ∈ refs t

/-- When cfg gives every key its meaning: what file and defaults alone make of a key that
configs has not becomes its meaning, and the references left in it end. -/
structure CfgFits (s : Sources) : Prop where
  noEmptyKey : dbValue s [] = none
  ssl : ∀ k v, sslValue s k = some v → Meaning s k v
  unescaped : ∀ k t, sslValue s k = none → dbValue s k = some t → ['{'] ∈ refs t →
    Meaning s ['{'] ['$', '{']
  core : ∀ k v, sslValue s k = none → dbValue s k = none → Meaning s k v →
    ∃ t, Gives (coreCfg s) k t ∧ Becomes (Meaning s) (pieces t) v
  ends : WellFounded (fun name k => CfgRefers s k name)

/-- When it does so at first sight: no text of a key that configs has not refers to a key
configs has, and nothing in texts or values looks like a reference that is none. -/
structure Apart (s : Sources) : Prop where
  noEmptyKey : dbValue s [] = none
  ssl : ∀ k v, sslValue s k = some v → Meaning s k v
  noEscape : ∀ k t, raw s k = some t → ['{'] ∉ refs t
  apart : ∀ k t name, dbValue s k = none → raw s k = some t → name ∈ refs t →
    dbValue s name = none
  complete : ∀ k v, dbValue s k = none → Meaning s k v → refs v = []

end Meaning

section Tables

variable {s : Sources}

theorem reload_eq (rows props : Table) :
    reload rows props = (rows.filter (fun row => row.1 ≠ [])).reverse ++ props := by
  induction rows generalizing props with
  | nil => rfl
  | cons row rows ih =>
    show reload rows (if row.1 = [] then props else row :: props) = _
    rw [ih]
    by_cases h : row.1 = []
    · simp [h]
    · simp [h]

/-- Leaving out rows of one key changes nothing for the others. -/
theorem lookup_filter_key (rows : Table) {k : Text} (hk : k ≠ []) :
    (rows.filter (fun row => row.1 ≠ [])).lookup k = rows.lookup k := by
  induction rows with
  | nil => rfl
  | cons row rows ih =>
    obtain ⟨key, v⟩ := row
    by_cases h : key = []
    · rw [List.filter_cons_of_neg (by simp [h]), ih, List.lookup_cons,
        show (k == key) = false from beq_eq_false_iff_ne.mpr (h ▸ hk)]
    · rw [List.filter_cons_of_pos (by simp [h]), List.lookup_cons, List.lookup_cons, ih]

/-- But for the empty key the properties of the HKD hold what is to be looked up. -/
theorem getProperty_reload {k : Text} (hk : k ≠ []) :
    getProperty (reload s.configs (loadBaseConfig s)) k = raw s k := by
  rw [getProperty, if_neg hk, reload_eq, List.lookup_append, ← List.filter_reverse,
    lookup_filter_key _ hk, raw, getProperty, if_neg hk, dbValue]
  cases s.configs.reverse.lookup k <;> rfl

theorem raw_eq_none_iff {k : Text} : raw s k = none ↔
    dbValue s k = none ∧ getProperty (loadBaseConfig s) k = none := by
  unfold raw
  cases dbValue s k <;> simp

theorem raw_of_db {k t : Text} (h : dbValue s k = some t) : raw s k = some t := by
  rw [raw, h]
  rfl

theorem raw_of_core {k : Text} (h : dbValue s k = none) :
    raw s k = getProperty (loadBaseConfig s) k := by
  rw [raw, h]
  rfl

theorem mem_of_lookup {t : Table} {k v : Text} (h : t.lookup k = some v) : (k, v) ∈ t := by
  obtain ⟨t1, t2, rfl, -⟩ := List.lookup_eq_some_iff.mp h
  simp

/-- A text that is looked up stands in one of the tables. -/
theorem mem_of_raw {k t : Text} (h : raw s k = some t) :
    (k, t) ∈ s.configs ++ (s.file ++ s.defaults) := by
  cases hdb : dbValue s k with
  | some v =>
    rw [raw_of_db hdb] at h
    obtain rfl := Option.some.inj h
    exact List.mem_append_left _ (List.mem_reverse.mp (mem_of_lookup hdb))
  | none =>
    rw [raw_of_core hdb, getProperty] at h
    split at h
    · cases h
    · exact List.mem_append_right _ (mem_of_lookup h)

theorem raw_finite : {k | raw s k ≠ none}.Finite := by
  refine ((s.configs ++ (s.file ++ s.defaults)).map Prod.fst).finite_toSet.subset ?_
  intro k hk
  obtain ⟨t, ht⟩ := Option.ne_none_iff_exists'.mp hk
  exact List.mem_map.mpr ⟨(k, t), mem_of_raw ht, rfl⟩

end Tables

section Values

variable {s : Sources} {k v w : Text}

theorem Meaning.unique (hv : Meaning s k v) (hw : Meaning s k w) : v = w :=
  gives_unique hv hw

theorem meaning_iff : Meaning s k v ↔
    ∃ t, raw s k = some t ∧ Becomes (Means (raw s) escape) (pieces t) v :=
  gives_resolve_iff

theorem refers_wellFounded (hs : WellFormed s) :
    WellFounded (fun name k => Refers (raw s) escape k name) := by
  refine wellFounded_of_acyclic hs.acyclic (raw_finite (s := s)) ?_
  rintro k name ⟨t, ht, -⟩ hnone
  rw [ht] at hnone
  cases hnone

/-- In a well-formed configuration every key that has a text has a meaning. -/
theorem meaning_exists (hs : WellFormed s) (hk : raw s k ≠ none) : ∃ v, Meaning s k v :=
  gives_exists (refers_wellFounded hs) hs.resolvable k hk

/-- The HKD gives every key its meaning as long as configs has no row with an empty key,
which it passes over. -/
theorem hkdCfg_iff (hs : WellFormed s) :
    (∀ k v, Gives (hkdCfg s) k v ↔ Meaning s k v) ↔ dbValue s [] = none := by
  constructor
  · intro h
    cases hdb : dbValue s [] with
    | none => rfl
    | some t =>
      have hraw : raw s [] ≠ none := by
        rw [raw_of_db hdb]
        exact Option.some_ne_none t
      obtain ⟨v, hv⟩ := meaning_exists hs hraw
      obtain ⟨t', ht', -⟩ := gives_resolve_iff.mp ((h [] v).mpr hv)
      cases ht'
  · intro h
    have hsame : getProperty (reload s.configs (loadBaseConfig s)) = raw s := by
      funext k
      by_cases hk : k = []
      · subst hk
        exact (raw_eq_none_iff.mpr ⟨h, rfl⟩).symm
      · exact getProperty_reload hk
    intro k v
    rw [hkdCfg, hsame]
    exact Iff.rfl

theorem cfg_monotone : Monotone (cfg s) := by
  intro n
  induction n with
  | zero =>
    intro k v h
    cases h
  | succ n ih =>
    intro k v h
    unfold cfg at h ⊢
    split
    · next hssl =>
      rw [hssl] at h
      exact h
    · next hssl =>
      rw [hssl] at h
      dsimp only at h
      split
      · next t hdb =>
        rw [hdb] at h
        exact substitute_mono ih h
      · next hdb =>
        rw [hdb] at h
        obtain ⟨t, ht, hv⟩ := Option.bind_eq_some_iff.mp h
        exact Option.bind_eq_some_iff.mpr
          ⟨t, monotone_resolve n k t ht, substitute_mono ih hv⟩

theorem CfgText.unique {t t' : Text} (h : CfgText s k t) (h' : CfgText s k t') : t = t' := by
  rcases h with hdb | ⟨hdb, hcore⟩
  · rcases h' with hdb' | ⟨hdb', -⟩
    · exact Option.some.inj (hdb.symm.trans hdb')
    · rw [hdb] at hdb'
      cases hdb'
  · rcases h' with hdb' | ⟨-, hcore'⟩
    · rw [hdb] at hdb'
      cases hdb'
    · exact gives_unique hcore hcore'

/-- One level of cfg: the row of ssl_configs, or a text whose references it replaces. -/
theorem cfg_succ_eq_some_iff {n : ℕ} : cfg s (n + 1) k = some v ↔
    sslValue s k = some v ∨ (sslValue s k = none ∧ ∃ t, interpolate (cfg s n) t = some v ∧
      (dbValue s k = some t ∨ (dbValue s k = none ∧ coreCfg s n k = some t))) := by
  unfold cfg
  cases hssl : sslValue s k with
  | some w => simp
  | none =>
    cases hdb : dbValue s k with
    | some t => simp
    | none =>
      simp only [reduceCtorEq, false_or, true_and, Option.bind_eq_some_iff]
      exact exists_congr fun t => and_comm

theorem gives_cfg_iff : Gives (cfg s) k v ↔ sslValue s k = some v ∨
    (sslValue s k = none ∧ ∃ t, CfgText s k t ∧ Becomes (Gives (cfg s)) (pieces t) v) := by
  constructor
  · rintro ⟨n, hn⟩
    cases n with
    | zero => cases hn
    | succ n =>
      refine (cfg_succ_eq_some_iff.mp hn).imp_right ?_
      rintro ⟨hssl, t, hv, htext⟩
      exact ⟨hssl, t, htext.imp_right (fun ⟨hdb, ht⟩ => ⟨hdb, n, ht⟩),
        (becomes_gives_iff cfg_monotone).mpr ⟨n, hv⟩⟩
  · rintro (hssl | ⟨hssl, t, htext, hv⟩)
    · exact ⟨1, cfg_succ_eq_some_iff.mpr (Or.inl hssl)⟩
    · obtain ⟨n, hn⟩ := (becomes_gives_iff cfg_monotone).mp hv
      rcases htext with hdb | ⟨hdb, m, hm⟩
      · exact ⟨n + 1, cfg_succ_eq_some_iff.mpr (Or.inr ⟨hssl, t, hn, Or.inl hdb⟩)⟩
      · have hv' := substitute_mono
          (fun name x hx => cfg_monotone.le (Nat.le_max_left n m) hx) hn
        exact ⟨max n m + 1, cfg_succ_eq_some_iff.mpr (Or.inr ⟨hssl, t, hv', Or.inr
          ⟨hdb, monotone_resolve.le (Nat.le_max_right n m) hm⟩⟩)⟩

/-- A key whose text cfg finds has a text. -/
theorem raw_of_cfgText {t : Text} (h : CfgText s k t) : raw s k ≠ none := by
  rcases h with hdb | ⟨hdb, hcore⟩
  · rw [raw_of_db hdb]
    exact Option.some_ne_none t
  · obtain ⟨t', ht', -⟩ := gives_resolve_iff.mp hcore
    rw [raw_of_core hdb, ht']
    exact Option.some_ne_none t'

/-- References that cfg has followed to their end do not go on for ever. -/
theorem acc_of_cfg {n : ℕ} (h : cfg s n k = some v) :
    Acc (fun name k => CfgRefers s k name) k := by
  induction n generalizing k v with
  | zero => cases h
  | succ n ih =>
    refine Acc.intro k fun name hrefers => ?_
    obtain ⟨hnone, t, htext, hname⟩ := hrefers
    rcases cfg_succ_eq_some_iff.mp h with hssl | ⟨-, t', hv, htext'⟩
    · rw [hssl] at hnone
      cases hnone
    · obtain rfl := htext.unique (htext'.imp_right (fun ⟨hdb, ht⟩ => ⟨hdb, n, ht⟩))
      obtain ⟨x, hx⟩ :=
        ((substitute_iff _).mp hv).exists_of_ref (mem_refs_iff.mp hname)
      exact ih hx

end Values

section Agreement

variable {s : Sources} {k v : Text}

theorem means_of_ne {name x : Text} (hname : name ≠ ['{']) :
    Means (raw s) escape name x ↔ Meaning s name x := by
  simp [Means, escape, hname, Meaning]

theorem means_brace_iff {x : Text} : Means (raw s) escape ['{'] x ↔ x = ['$', '{'] := by
  simp [Means, escape, eq_comm]

/-- Where cfg fits it finds every meaning, by induction along the references it follows. -/
theorem gives_cfg_of_meaning (hfits : CfgFits s) (hv : Meaning s k v) : Gives (cfg s) k v := by
  induction k using hfits.ends.induction generalizing v with
  | _ k ih =>
    rw [gives_cfg_iff]
    cases hssl : sslValue s k with
    | some w => exact Or.inl (congrArg some ((hfits.ssl k w hssl).unique hv))
    | none =>
      refine Or.inr ⟨rfl, ?_⟩
      cases hdb : dbValue s k with
      | some t =>
        obtain ⟨t', ht', hbecomes⟩ := meaning_iff.mp hv
        obtain rfl := Option.some.inj ((raw_of_db hdb).symm.trans ht')
        refine ⟨t, Or.inl hdb, hbecomes.mono (fun name x hname hx => ?_)⟩
        have hrefers : CfgRefers s k name := ⟨hssl, t, Or.inl hdb, mem_refs_iff.mpr hname⟩
        by_cases hbrace : name = ['{']
        · subst hbrace
          obtain rfl := means_brace_iff.mp hx
          exact ih _ hrefers (hfits.unescaped k t hssl hdb (mem_refs_iff.mpr hname))
        · exact ih name hrefers ((means_of_ne hbrace).mp hx)
      | none =>
        obtain ⟨t, hcore, hbecomes⟩ := hfits.core k v hssl hdb hv
        refine ⟨t, Or.inr ⟨hdb, hcore⟩, hbecomes.mono (fun name x hname hx => ?_)⟩
        exact ih name ⟨hssl, t, Or.inr ⟨hdb, hcore⟩, mem_refs_iff.mpr hname⟩ hx

theorem cfg_iff_of_fits (hs : WellFormed s) (hfits : CfgFits s) (k v : Text) :
    Gives (cfg s) k v ↔ Meaning s k v := by
  constructor
  · intro hv
    rcases gives_cfg_iff.mp hv with hssl | ⟨-, t, htext, -⟩
    · exact hfits.ssl k v hssl
    · obtain ⟨w, hw⟩ := meaning_exists hs (raw_of_cfgText htext)
      obtain rfl := (gives_cfg_of_meaning hfits hw).unique cfg_monotone hv
      exact hw
  · exact gives_cfg_of_meaning hfits

/-- Where cfg gives every key its meaning, a text of configs that holds `${{}` needs a key of
that name whose meaning is what `${{}` stands for. -/
theorem unescaped_of_agree (hs : WellFormed s)
    (hagree : ∀ k v, Gives (cfg s) k v ↔ Meaning s k v) {t : Text} (hssl : sslValue s k = none)
    (hdb : dbValue s k = some t) (hbrace : ['{'] ∈ refs t) : Meaning s ['{'] ['$', '{'] := by
  have hraw := raw_of_db hdb
  obtain ⟨v, hv⟩ := meaning_exists hs (hraw ▸ Option.some_ne_none t)
  obtain ⟨t', ht', hmeans⟩ := meaning_iff.mp hv
  obtain rfl := Option.some.inj (hraw.symm.trans ht')
  rcases gives_cfg_iff.mp ((hagree k v).mpr hv) with hssl' | ⟨-, t', htext, hgives⟩
  · rw [hssl] at hssl'
    cases hssl'
  · obtain rfl := htext.unique (Or.inl hdb)
    have hplain : Becomes (Meaning s) (pieces t') v :=
      hgives.mono (fun name x _ hx => (hagree name x).mp hx)
    obtain ⟨y, hy⟩ := hplain.exists_of_ref (mem_refs_iff.mp hbrace)
    have heq := eq_of_becomes (fun z hz => means_brace_iff.mp hz) (fun z hz => hz.unique hy)
      (fun n z z' hn hz hz' => ((means_of_ne hn).mp hz).unique hz') hmeans hplain
      (mem_refs_iff.mp hbrace)
    exact heq ▸ hy

theorem fits_of_agree (hs : WellFormed s) (hagree : Agree s) : CfgFits s where
  noEmptyKey := (hkdCfg_iff hs).mp hagree.1
  ssl k v hssl := (hagree.2 k v).mp (gives_cfg_iff.mpr (Or.inl hssl))
  unescaped k t hssl hdb hbrace := unescaped_of_agree hs hagree.2 hssl hdb hbrace
  core k v hssl hdb hv := by
    rcases gives_cfg_iff.mp ((hagree.2 k v).mpr hv) with hssl' | ⟨-, t, htext, hgives⟩
    · rw [hssl] at hssl'
      cases hssl'
    · rcases htext with hdb' | ⟨-, hcore⟩
      · rw [hdb] at hdb'
        cases hdb'
      · exact ⟨t, hcore, hgives.mono (fun name x _ hx => (hagree.2 name x).mp hx)⟩
  ends := by
    refine ⟨fun k => ?_⟩
    by_cases hraw : raw s k = none
    · exact Acc.intro k fun name hrefers =>
        absurd hraw (raw_of_cfgText hrefers.2.choose_spec.1)
    · obtain ⟨v, hv⟩ := meaning_exists hs hraw
      obtain ⟨n, hn⟩ := (hagree.2 k v).mpr hv
      exact acc_of_cfg hn

/-- A key that configs has not has its meaning from file and defaults alone when nothing it
refers to is in configs. -/
theorem core_of_apart (hs : WellFormed s) (h : Apart s) (hdb : dbValue s k = none)
    (hv : Meaning s k v) : Gives (coreCfg s) k v := by
  induction k using (refers_wellFounded hs).induction generalizing v with
  | _ k ih =>
    obtain ⟨t, ht, hbecomes⟩ := meaning_iff.mp hv
    refine gives_resolve_iff.mpr ⟨t, (raw_of_core hdb).symm.trans ht, ?_⟩
    refine hbecomes.mono (fun name x hname hx => Or.inr ⟨rfl, ?_⟩)
    have href := mem_refs_iff.mpr hname
    have hbrace : name ≠ ['{'] := fun heq => h.noEscape k t ht (heq ▸ href)
    have hrefers : Refers (raw s) escape k name :=
      ⟨t, ht, href, by simp [escape, hbrace]⟩
    exact ih name hrefers (h.apart k t name hdb ht href) ((means_of_ne hbrace).mp hx)

theorem fits_of_apart (hs : WellFormed s) (h : Apart s) : CfgFits s where
  noEmptyKey := h.noEmptyKey
  ssl := h.ssl
  unescaped k t _ hdb hbrace := absurd hbrace (h.noEscape k t (raw_of_db hdb))
  core k v _ hdb hv := ⟨v, core_of_apart hs h hdb hv, becomes_self (h.complete k v hdb hv)⟩
  ends := by
    refine Subrelation.wf ?_ (refers_wellFounded hs)
    rintro name k ⟨-, t, htext, hname⟩
    rcases htext with hdb | ⟨hdb, hcore⟩
    · have hbrace : name ≠ ['{'] := fun heq => h.noEscape k t (raw_of_db hdb) (heq ▸ hname)
      exact ⟨t, raw_of_db hdb, hname, by simp [escape, hbrace]⟩
    · -- what file and defaults give is the meaning, which refers to nothing
      obtain ⟨v, hv⟩ := meaning_exists hs (raw_of_cfgText (Or.inr ⟨hdb, hcore⟩))
      obtain rfl := gives_unique hcore (core_of_apart hs h hdb hv)
      rw [h.complete k t hdb hv] at hname
      cases hname

/-- The two resolvers give every key its meaning exactly when cfg fits; it does when what
configs has is apart from what file and defaults refer to. -/
theorem resolvers_agree_iff (s : Sources) (hs : WellFormed s) :
    (Agree s ↔ CfgFits s) ∧ (Apart s → Agree s) := by
  have hiff : Agree s ↔ CfgFits s := by
    constructor
    · exact fits_of_agree hs
    · exact fun h => ⟨(hkdCfg_iff hs).mpr h.noEmptyKey, cfg_iff_of_fits hs h⟩
  exact ⟨hiff, fun h => hiff.mpr (fits_of_apart hs h)⟩

end Agreement

section Examples

/-- All texts of a configuration with their keys. -/
def entries (s : Sources) : Table := s.configs ++ (s.file ++ s.defaults)

theorem wellFormed_of_rank {s : Sources} (rank : Text → ℕ)
    (hrank : ∀ e ∈ entries s, ∀ name ∈ refs e.2, rank name < rank e.1)
    (hfound : ∀ e ∈ entries s, ∀ name ∈ refs e.2, raw s name ≠ none) : WellFormed s where
  acyclic := by
    refine acyclic_of_rank rank ?_
    rintro k name ⟨t, ht, hname, -⟩
    exact hrank (k, t) (mem_of_raw ht) name hname
  resolvable := by
    rintro k name ⟨t, ht, hname, -⟩
    exact hfound (k, t) (mem_of_raw ht) name hname

/-- One default refers to another. -/
def storagePaths : Table :=
  [("path.storage.images".toList, "${path.storage.root}/images".toList),
    ("path.storage.root".toList, "/var/lib/qvd/storage".toList)]

/-- The default that is referred to has another value in configs. -/
def movedRoot : Sources where
  defaults := storagePaths
  file := []
  configs := [("path.storage.root".toList, "/data".toList)]
  sslConfigs := []

/-- A row of configs refers to a default. -/
def newKey : Sources where
  defaults := storagePaths
  file := []
  configs := [("path.storage.isos".toList, "${path.storage.images}/iso".toList)]
  sslConfigs := []

def depth (k : Text) : ℕ :=
  if k = "path.storage.isos".toList then 2
  else if k = "path.storage.images".toList then 1
  else 0

/-- The other programs look for the images where nobody has put them. -/
theorem moved_root_not_followed : WellFormed movedRoot ∧ ¬ Agree movedRoot ∧
    Meaning movedRoot "path.storage.images".toList "/data/images".toList ∧
      Gives (hkdCfg movedRoot) "path.storage.images".toList "/data/images".toList ∧
      Gives (cfg movedRoot) "path.storage.images".toList
        "/var/lib/qvd/storage/images".toList := by
  have hmeaning : Meaning movedRoot "path.storage.images".toList "/data/images".toList :=
    ⟨2, by decide⟩
  have hcfg : Gives (cfg movedRoot) "path.storage.images".toList
      "/var/lib/qvd/storage/images".toList := ⟨3, by decide⟩
  refine ⟨wellFormed_of_rank depth (by decide) (by decide), ?_, hmeaning,
    ⟨2, by decide⟩, hcfg⟩
  intro hagree
  have hsame := ((hagree.2 _ _).mpr hmeaning).unique cfg_monotone hcfg
  exact absurd hsame (by decide)

theorem newKey_apart : Apart newKey where
  noEmptyKey := by decide
  ssl k v h := by
    have hnone : sslValue newKey k = none := by
      unfold sslValue
      split <;> rfl
    rw [hnone] at h
    cases h
  noEscape k t ht := by
    have hall : ∀ e ∈ entries newKey, ['{'] ∉ refs e.2 := by decide
    exact hall (k, t) (mem_of_raw ht)
  apart k t name hdb ht hname := by
    have hall : ∀ e ∈ entries newKey, dbValue newKey e.1 = none →
        ∀ name ∈ refs e.2, dbValue newKey name = none := by decide
    exact hall (k, t) (mem_of_raw ht) hdb name hname
  complete k v hdb hv := by
    have hall : ∀ e ∈ entries newKey, dbValue newKey e.1 = none →
        (resolve (raw newKey) escape 2 e.1).map refs = some [] := by decide
    obtain ⟨t, ht, -⟩ := meaning_iff.mp hv
    obtain ⟨v', hv', hrefs⟩ := Option.map_eq_some_iff.mp (hall (k, t) (mem_of_raw ht) hdb)
    obtain rfl := hv.unique ⟨2, hv'⟩
    exact hrefs

theorem resolvers_agree_iff_new_key : Agree newKey :=
  (resolvers_agree_iff newKey
    (wellFormed_of_rank depth (by decide) (by decide))).2 newKey_apart

end Examples

end Qvd.ConfigResolvers
