import Mathlib.Data.List.Dedup
import Mathlib.Data.List.DropRight
import Qvd.KeyedRows
import Qvd.LineText
import Qvd.PathTree

/-!
The tree of the configuration: `cfg_keys`, which walks a hash of keys, and `cfg_tree`, which
stores the value of every selected key along the components of its name.
-/
namespace Qvd.ConfigTree

open KeyedRows LineText PathTree

/-! ### The code -/

section Code

variable (order : HashOrder) (cfg : Text → Option Text) (preffix : Option Text)

/-- `cfg_keys`: the keys of the core configuration, of the rows in memory and of those in the
database, each once, as the hash lists them. -/
def cfgKeys (coreKeys cached rows : List Text) : List Text :=
  order.keys (coreKeys ++ cached ++ rows).dedup

/-- What `s/^\Q$preffix\E\.//` leaves of a key that has the prefix. -/
def ekeyOf (key : Text) : Option Text :=
  match preffix with
  | none => some key
  | some preffix => key.dropPrefix? (preffix ++ ['.'])

/-- `split /\./`, which leaves out empty fields at the end, and one empty part for no field. -/
def partsOf (ekey : Text) : List Text :=
  let parts := (ekey.splitOn '.').rdropWhile List.isEmpty
  if parts = [] then [[]] else parts

/-- One turn of the loop; it ends in `none` if `cfg` dies. -/
def storeKey (root : Text → Tree Text Text) (key : Text) : Option (Text → Tree Text Text) :=
  match ekeyOf preffix key with
  | none => some root
  | some ekey => (cfg key).map fun value => store [] value root (partsOf ekey)

/-- `cfg_tree`. -/
def cfgTree (keys : List Text) : Option (Tree Text Text) :=
  (keys.foldlM (storeKey cfg preffix) fun _ => .undef).map .hash

end Code

/-! ### What the tree should be -/

section Purpose

variable (cfg : Text → Option Text) (preffix : Option Text) (keys : List Text)

/-- No component of the key is empty. -/
def Plain (key : Text) : Prop := [] ∉ key.splitOn '.'

instance (key : Text) : Decidable (Plain key) := inferInstanceAs (Decidable (¬_))

/-- A selected key, by the components that follow the prefix. -/
def Selected (key : Text) (components : List Text) : Prop :=
  key ∈ keys ∧ ∃ ekey, ekeyOf preffix key = some ekey ∧ components = ekey.splitOn '.'

/-- The components go on to those of another selected key. -/
def Extended (components : List Text) : Prop :=
  ∃ key longer, Selected preffix keys key longer ∧ components <+: longer ∧ components ≠ longer

/-- The values of the selected keys are found by their components, and nothing else is. -/
structure Holds (tree : Tree Text Text) : Prop where
  leaf : ∀ key components value, Selected preffix keys key components → cfg key = some value →
    ¬Extended preffix keys components → find tree components = .scalar value
  inner : ∀ key components value, Selected preffix keys key components → cfg key = some value →
    Extended preffix keys components → find tree (components ++ [[]]) = .scalar value
  values : ∀ path value, find tree path = .scalar value → ∃ key components,
    Selected preffix keys key components ∧ cfg key = some value ∧
      (¬Extended preffix keys components ∧ path = components ∨
        Extended preffix keys components ∧ path = components ++ [[]])
  hashes : ∀ path entries, path ≠ [] → find tree path = .hash entries →
    Extended preffix keys path

end Purpose

/-! ### Keys and components -/

section Keys

variable {preffix : Option Text} {keys : List Text} {key key' ekey : Text}
  {components : List Text}

theorem partsOf_plain (h : Plain ekey) : partsOf ekey = ekey.splitOn '.' := by
  have hlast : (ekey.splitOn '.').rdropWhile List.isEmpty = ekey.splitOn '.' := by
    rw [List.rdropWhile_eq_self_iff]
    intro hne hempty
    have hmem := List.getLast_mem hne
    rw [List.isEmpty_iff.mp hempty] at hmem
    exact h hmem
  rw [partsOf, hlast, if_neg (List.splitOn_ne_nil _ _)]

/-- The prefix that is taken off. -/
def front : Option Text → Text
  | none => []
  | some preffix => preffix ++ ['.']

theorem ekeyOf_iff : ekeyOf preffix key = some ekey ↔ key = front preffix ++ ekey := by
  cases preffix with
  | none => exact Option.some_inj
  | some preffix =>
    rw [ekeyOf, List.dropPrefix?_eq_some_iff, front]
    constructor
    · rintro ⟨p, rfl, hsame⟩
      rw [eq_of_beq hsame]
    · intro h
      exact ⟨_, h, beq_self_eq_true _⟩

theorem plain_ekey (h : ekeyOf preffix key = some ekey) (hplain : Plain key) : Plain ekey := by
  rw [ekeyOf_iff] at h
  subst h
  cases preffix with
  | none => exact hplain
  | some preffix =>
    rw [Plain, front, List.append_assoc, List.singleton_append, List.splitOn_append_cons_self,
      List.mem_append, not_or] at hplain
    exact hplain.2

/-- Components name one key. -/
theorem selected_unique (h : Selected preffix keys key components)
    (h' : Selected preffix keys key' components) : key = key' := by
  obtain ⟨-, ekey, hekey, hparts⟩ := h
  obtain ⟨-, ekey', hekey', hparts'⟩ := h'
  have hjoin : ∀ text : Text, ['.'].intercalate (text.splitOn '.') = text :=
    fun text => List.intercalate_splitOn '.'
  have hsame : ekey = ekey' := by
    rw [← hjoin ekey, ← hparts, hparts', hjoin]
  rw [ekeyOf_iff.mp hekey, ekeyOf_iff.mp hekey', hsame]

theorem selected_ne_nil (h : Selected preffix keys key components) : components ≠ [] := by
  obtain ⟨-, ekey, -, rfl⟩ := h
  exact List.splitOn_ne_nil _ _

theorem selected_plain (h : Selected preffix keys key components)
    (hplain : ∀ key ∈ keys, Plain key) : [] ∉ components := by
  obtain ⟨hmem, ekey, hekey, rfl⟩ := h
  exact plain_ekey hekey (hplain key hmem)

theorem selected_append {last : Text} : Selected preffix (keys ++ [last]) key components ↔
    Selected preffix keys key components ∨ Selected preffix [last] key components := by
  rw [Selected, List.mem_append, or_and_right]
  rfl

theorem selected_congr {keys' : List Text} (h : ∀ key, key ∈ keys ↔ key ∈ keys') :
    Selected preffix keys = Selected preffix keys' := by
  funext key components
  rw [Selected, h]
  rfl

end Keys

/-! ### What is stored -/

section Stored

variable {cfg : Text → Option Text} {preffix : Option Text} {keys : List Text}
  {values : List Text → Option Text}

/-- The values of the selected keys, by their components. -/
def Values (cfg : Text → Option Text) (preffix : Option Text) (keys : List Text)
    (values : List Text → Option Text) : Prop :=
  ∀ components value, values components = some value ↔
    ∃ key, Selected preffix keys key components ∧ cfg key = some value

theorem values_unique {values' : List Text → Option Text} (h : Values cfg preffix keys values)
    (h' : Values cfg preffix keys values') : values = values' := by
  funext components
  refine Option.ext fun value => ?_
  rw [h, h']

theorem storeKey_none {root : Text → Tree Text Text} {key : Text} (h : ekeyOf preffix key = none) :
    storeKey cfg preffix root key = some root := by
  rw [storeKey, h]

theorem storeKey_some {root : Text → Tree Text Text} {key ekey : Text}
    (h : ekeyOf preffix key = some ekey) : storeKey cfg preffix root key =
      (cfg key).map fun value => store [] value root (partsOf ekey) := by
  rw [storeKey, h]

/-- The loop goes through if every selected key has a value. -/
theorem isSome_foldlM (root : Text → Tree Text Text) :
    (keys.foldlM (storeKey cfg preffix) root).isSome ↔
      ∀ key ∈ keys, (ekeyOf preffix key).isSome → (cfg key).isSome := by
  induction keys generalizing root with
  | nil => simp
  | cons key keys ih =>
    rw [List.foldlM_cons, List.forall_mem_cons]
    cases hekey : ekeyOf preffix key with
    | none =>
      rw [storeKey_none hekey, Option.bind_eq_bind, Option.bind_some, ih]
      simp
    | some ekey =>
      rw [storeKey_some hekey]
      cases hvalue : cfg key with
      | none => simp
      | some value =>
        rw [Option.map_some, Option.bind_eq_bind, Option.bind_some, ih]
        simp

/-- One more key. -/
theorem Values.update {last components : _} {value : Text} (h : Values cfg preffix keys values)
    (hlast : Selected preffix [last] last components) (hvalue : cfg last = some value)
    (hmem : last ∉ keys) :
    Values cfg preffix (keys ++ [last]) (Function.update values components (some value)) := by
  intro path other
  rw [Function.update_apply]
  by_cases hsame : path = components
  · subst hsame
    rw [if_pos rfl]
    constructor
    · intro heq
      exact ⟨last, selected_append.mpr (.inr hlast), hvalue.trans heq⟩
    · rintro ⟨key, hkey, hother⟩
      rcases selected_append.mp hkey with hin | hin
      · have hall : Selected preffix (keys ++ [last]) last path := selected_append.mpr (.inr hlast)
        exact absurd (selected_unique hall hkey ▸ hin.1) hmem
      · obtain rfl := List.mem_singleton.mp hin.1
        exact hvalue.symm.trans hother
  · rw [if_neg hsame, h]
    refine exists_congr fun key => and_congr_left fun _ => ?_
    rw [selected_append, or_iff_left]
    rintro ⟨hin, ekey, hekey, rfl⟩
    obtain rfl := List.mem_singleton.mp hin
    obtain ⟨-, ekey', hekey', rfl⟩ := hlast
    rw [hekey] at hekey'
    exact hsame (congrArg (List.splitOn '.') (Option.some.inj hekey'))

/-- The tree after the loop is that of the values of the selected keys. -/
theorem stores_foldlM {root : Text → Tree Text Text} (hplain : ∀ key ∈ keys, Plain key)
    (hnodup : keys.Nodup) (h : keys.foldlM (storeKey cfg preffix) (fun _ => .undef) = some root) :
    ∃ values, Stores [] root values ∧ Values cfg preffix keys values := by
  induction keys using List.reverseRecOn generalizing root with
  | nil =>
    obtain rfl := Option.some.inj h
    refine ⟨fun _ => none, stores_empty, fun components value => ⟨?_, ?_⟩⟩
    · intro hnone
      cases hnone
    · rintro ⟨key, hkey, -⟩
      exact absurd hkey.1 List.not_mem_nil
  | append_singleton keys last ih =>
    rw [List.foldlM_append, Option.bind_eq_bind, Option.bind_eq_some_iff] at h
    obtain ⟨before, hbefore, hstep⟩ := h
    obtain ⟨hnodup, -, hfresh⟩ := List.nodup_append.mp hnodup
    have hmem : last ∉ keys := fun hin => hfresh last hin last (List.mem_singleton_self _) rfl
    obtain ⟨values, hstores, hvalues⟩ :=
      ih (fun key hin => hplain key (List.mem_append_left _ hin)) hnodup hbefore
    rw [List.foldlM_cons] at hstep
    simp only [List.foldlM_nil, bind_pure] at hstep
    cases hekey : ekeyOf preffix last with
    | none =>
      rw [storeKey_none hekey] at hstep
      obtain rfl := Option.some.inj hstep
      refine ⟨values, hstores, fun components value => (hvalues components value).trans ?_⟩
      refine exists_congr fun key => and_congr_left fun _ => ?_
      rw [selected_append, or_iff_left]
      rintro ⟨hin, ekey, hsome, -⟩
      rw [List.mem_singleton.mp hin, hekey] at hsome
      cases hsome
    | some ekey =>
      have hlast : Selected preffix [last] last (ekey.splitOn '.') :=
        ⟨List.mem_singleton_self _, ekey, hekey, rfl⟩
      have hplainLast : ∀ key ∈ [last], Plain key := fun key hin =>
        hplain key (List.mem_append_right _ hin)
      have hparts := partsOf_plain (plain_ekey hekey (hplainLast last (List.mem_singleton_self _)))
      rw [storeKey_some hekey, hparts] at hstep
      obtain ⟨value, hvalue, rfl⟩ := Option.map_eq_some_iff.mp hstep
      exact ⟨_, hstores.store (selected_ne_nil hlast) (selected_plain hlast hplainLast) value,
        hvalues.update hlast hvalue hmem⟩

end Stored

/-! ### The whole tree -/

section Whole

variable {cfg : Text → Option Text} {preffix : Option Text} {keys : List Text}
  {values : List Text → Option Text} {path components : List Text}

/-- A path goes on to a value as it goes on to a selected key. -/
theorem goesOn_iff (hvalues : Values cfg preffix keys values)
    (hall : ∀ key ∈ keys, (ekeyOf preffix key).isSome → (cfg key).isSome) :
    GoesOn values path ↔ Extended preffix keys path := by
  constructor
  · rintro ⟨part, rest, hne⟩
    obtain ⟨value, hvalue⟩ := Option.ne_none_iff_exists'.mp hne
    obtain ⟨key, hkey, -⟩ := (hvalues _ _).mp hvalue
    refine ⟨key, path ++ part :: rest, hkey, List.prefix_append _ _, fun hsame => ?_⟩
    exact absurd (congrArg List.length hsame) (by simp)
  · rintro ⟨key, longer, hkey, ⟨rest, rfl⟩, hne⟩
    obtain ⟨hmem, ekey, hekey, hparts⟩ := hkey
    obtain ⟨value, hvalue⟩ :=
      Option.isSome_iff_exists.mp (hall key hmem (Option.isSome_iff_exists.mpr ⟨ekey, hekey⟩))
    cases rest with
    | nil => exact absurd (List.append_nil path).symm hne
    | cons part rest =>
      have hstored := (hvalues _ _).mpr ⟨key, ⟨hmem, ekey, hekey, hparts⟩, hvalue⟩
      exact ⟨part, rest, hstored ▸ Option.some_ne_none value⟩

/-- The entries for the values of the selected keys are a tree of them. -/
theorem holds_of_stores {root : Text → Tree Text Text} (hstores : Stores [] root values)
    (hvalues : Values cfg preffix keys values) (hplain : ∀ key ∈ keys, Plain key)
    (hall : ∀ key ∈ keys, (ekeyOf preffix key).isSome → (cfg key).isSome) :
    Holds cfg preffix keys (.hash root) := by
  -- the root is a hash whether keys are selected or not
  have hempty : values [] = none := by
    refine Option.eq_none_iff_forall_ne_some.mpr fun value hvalue => ?_
    obtain ⟨key, hkey, -⟩ := (hvalues _ _).mp hvalue
    exact selected_ne_nil hkey rfl
  have hextended : ∀ path, GoesOn values path ↔ Extended preffix keys path := fun _ =>
    goesOn_iff hvalues hall
  refine ⟨?_, ?_, ?_, ?_⟩
  · intro key components value hkey hvalue hend
    obtain ⟨part, rest, rfl⟩ := List.exists_cons_of_ne_nil (selected_ne_nil hkey)
    obtain ⟨hpart, hrest⟩ := not_or.mp (mt List.mem_cons.mpr (selected_plain hkey hplain))
    have hstored := (hvalues _ _).mpr ⟨key, hkey, hvalue⟩
    refine (hstores.2 part (Ne.symm hpart)).find_leaf hrest hstored ?_
    exact mt (hextended (part :: rest)).mp hend
  · intro key components value hkey hvalue hon
    obtain ⟨part, rest, rfl⟩ := List.exists_cons_of_ne_nil (selected_ne_nil hkey)
    obtain ⟨hpart, hrest⟩ := not_or.mp (mt List.mem_cons.mpr (selected_plain hkey hplain))
    have hstored := (hvalues _ _).mpr ⟨key, hkey, hvalue⟩
    refine (hstores.2 part (Ne.symm hpart)).find_inner hrest hstored ?_
    exact (hextended (part :: rest)).mpr hon
  · intro path value hfound
    cases path with
    | nil => cases hfound
    | cons part rest =>
      rw [find] at hfound
      by_cases hpart : part = []
      · subst hpart
        rw [hstores.1, hempty, own, find_undef] at hfound
        cases hfound
      · obtain ⟨stored, hvalue, hplace⟩ := (hstores.2 part hpart).of_find_scalar hfound
        obtain ⟨key, hkey, hcfg⟩ := (hvalues _ _).mp hvalue
        refine ⟨key, part :: stored, hkey, hcfg, hplace.imp ?_ ?_⟩
        · exact fun hleaf => ⟨mt (hextended (part :: stored)).mpr hleaf.1, congrArg _ hleaf.2⟩
        · exact fun hinner => ⟨(hextended (part :: stored)).mp hinner.1, congrArg _ hinner.2⟩
  · intro path entries hne hfound
    obtain ⟨part, rest, rfl⟩ := List.exists_cons_of_ne_nil hne
    rw [find] at hfound
    by_cases hpart : part = []
    · subst hpart
      rw [hstores.1, hempty, own, find_undef] at hfound
      cases hfound
    · exact (hextended (part :: rest)).mp ((hstores.2 part hpart).of_find_hash hfound)

variable (cfg preffix) in
/-- What the loop makes of the keys in some order. -/
theorem cfgTree_cases (hplain : ∀ key ∈ keys, Plain key) (hnodup : keys.Nodup) :
    (∃ values root, Stores [] root values ∧ Values cfg preffix keys values ∧
      cfgTree cfg preffix keys = some (.hash root) ∧
        ∀ key ∈ keys, (ekeyOf preffix key).isSome → (cfg key).isSome) ∨
    cfgTree cfg preffix keys = none ∧
      ∃ key ∈ keys, (ekeyOf preffix key).isSome ∧ cfg key = none := by
  have hsome : (keys.foldlM (storeKey cfg preffix) fun _ => .undef).isSome ↔
      ∀ key ∈ keys, (ekeyOf preffix key).isSome → (cfg key).isSome := isSome_foldlM _
  cases hfold : keys.foldlM (storeKey cfg preffix) fun _ => .undef with
  | none =>
    rw [hfold] at hsome
    have hnot := mt hsome.mpr Bool.false_ne_true
    push Not at hnot
    obtain ⟨key, hmem, hekey, hdies⟩ := hnot
    refine .inr ⟨?_, key, hmem, hekey, by simpa using hdies⟩
    rw [cfgTree, hfold, Option.map_none]
  | some root =>
    rw [hfold] at hsome
    obtain ⟨values, hstores, hvalues⟩ := stores_foldlM hplain hnodup hfold
    refine .inl ⟨values, root, hstores, hvalues, ?_, hsome.mp rfl⟩
    rw [cfgTree, hfold, Option.map_some]

/-- In every order in which the hash lists the keys, `cfg_tree` builds the one tree of the values
of the selected keys; it builds none where a selected key has no value. -/
theorem cfg_tree_exact (cfg : Text → Option Text) (preffix : Option Text)
    (coreKeys cached rows : List Text) (hplain : ∀ key ∈ coreKeys ++ cached ++ rows, Plain key) :
    (∃ tree, (∀ order, cfgTree cfg preffix (cfgKeys order coreKeys cached rows) = some tree) ∧
      Holds cfg preffix (coreKeys ++ cached ++ rows) tree) ∨
    (∀ order, cfgTree cfg preffix (cfgKeys order coreKeys cached rows) = none) ∧
      ∃ key ∈ coreKeys ++ cached ++ rows, (ekeyOf preffix key).isSome ∧ cfg key = none := by
  have hmem : ∀ order key, key ∈ cfgKeys order coreKeys cached rows ↔
      key ∈ coreKeys ++ cached ++ rows := by
    intro order key
    rw [cfgKeys, (order.perm _).mem_iff, List.mem_dedup]
  have hcases := fun order => cfgTree_cases cfg preffix
    (fun key hin => hplain key ((hmem order key).mp hin))
    ((order.perm _).nodup_iff.mpr (List.nodup_dedup (coreKeys ++ cached ++ rows)))
  rcases hcases (rotated 0) with ⟨values, root, hstores, hvalues, hroot, hall⟩ |
    ⟨-, key, hin, hekey, hdies⟩
  · have hcongr : Selected preffix (cfgKeys (rotated 0) coreKeys cached rows) =
        Selected preffix (coreKeys ++ cached ++ rows) := selected_congr (hmem (rotated 0))
    refine .inl ⟨.hash root, fun order => ?_, ?_⟩
    · rcases hcases order with ⟨values', root', hstores', hvalues', hroot', -⟩ |
        ⟨-, key, hin, hekey, hdies⟩
      · have hsame : values' = values := by
          rw [Values, selected_congr (hmem order), ← hcongr] at hvalues'
          exact values_unique hvalues' hvalues
        subst hsame
        rw [hroot', stores_unique hstores' hstores]
      · have hsome := hall key ((hmem _ key).mpr ((hmem order key).mp hin)) hekey
        rw [hdies] at hsome
        cases hsome
    · have hvalues' : Values cfg preffix (coreKeys ++ cached ++ rows) values := by
        rw [Values, ← hcongr]
        exact hvalues
      exact holds_of_stores hstores hvalues' hplain fun key hin => hall key ((hmem _ key).mpr hin)
  · refine .inr ⟨fun order => ?_, key, (hmem _ key).mp hin, hekey, hdies⟩
    rcases hcases order with ⟨-, -, -, -, -, hall⟩ | ⟨hnone, -⟩
    · have hsome := hall key ((hmem order key).mpr ((hmem _ key).mp hin)) hekey
      rw [hdies] at hsome
      cases hsome
    · exact hnone

/-- A key and one that goes on from it. -/
def surnames : List Text := ["surname".toList, "surname.length".toList]

theorem cfg_tree_surname :
    ∃ tree, (∀ order, cfgTree some none (cfgKeys order [] [] surnames) = some tree) ∧
      Holds some none surnames tree := by
  rcases cfg_tree_exact some none [] [] surnames (by decide) with h | ⟨-, key, -, -, hdies⟩
  · exact h
  · cases hdies

end Whole

end Qvd.ConfigTree
