import Qvd.TagRows

/-!
The uniqueness of the tags among the published images of a flavour, over runs of the calls
that may stop after any of their parts.
-/
namespace Qvd.TagUniqueness

open Runs DiskImages TagRows

section Specification

/-- A tag is carried by at most one published image of a flavour. -/
def TagsUnique (t : Tables) : Prop :=
  ∀ osf tag a b, PublishedIn t osf a → PublishedIn t osf b → Carries t a tag →
    Carries t b tag → a = b

/-- Once an image with the tag has been published, one published image carries head as long
as the flavour has a published image. -/
def HeadKept (w : World) : Prop :=
  ∀ osf ∈ w.headPublished, (∃ id, PublishedIn w.db.toTables osf id) →
    ∃! id, PublishedIn w.db.toTables osf id ∧ Carries w.db.toTables id "head"

def TagsOk (w : World) : Prop :=
  TagsUnique w.db.toTables ∧ HeadKept w

/-- A consolidation that is not followed by a publication leaves the tag head where it is,
or one of its rows. -/
def HeadSurvives (w : World) (di : Di) : Prop :=
  di.osfId ∈ w.headPublished → (∃ id, PublishedIn w.db.toTables di.osfId id) →
    Carries w.db.toTables di.id "head" → fixedTag w.db.toTables di "head" = false ∧
      copies w.db.toTables di "head" < rivals w.db.toTables di "head"

/-- Every tag of the image is fixed, or has at least as many rows on it as on the other
published images. -/
def TagsTaken (t : Tables) (di : Di) : Prop :=
  ∀ tag, Carries t di.id tag → fixedTag t di tag = true ∨ rivals t di tag ≤ copies t di tag

/-- The condition on a call. -/
def StepOk (w : World) : Action → Prop
  | .call (.tagsCreate id names) n => n ≠ 0 → ∀ di ∈ w.db.dis, di.id = id →
      di.state = .published → ¬ Refused w.db.toTables di names → ∀ name ∈ given names,
        rivals w.db.toTables di name ≤
          copies w.db.toTables di name + (given names).count name
  | .call (.tagsConsolidate id) n => n ≠ 0 → ∀ di ∈ w.db.dis, di.id = id →
      di.state ≠ .published → HeadSurvives w di
  | .call (.diPublish id) n => ∀ di ∈ w.db.dis, di.id = id → di.state = .ready →
      (n = 1 → HeadSurvives w di) ∧
      (2 ≤ n → TagsTaken w.db.toTables di ∧ (Carries w.db.toTables di.id "head" ∨
        di.osfId ∉ w.headPublished ∨ ∃ id, PublishedIn w.db.toTables di.osfId id))
  | .call (.diDelete id) n => n < 3 → ∀ di ∈ w.db.dis, di.id = id → di.state = .published →
      diNoVmRuntimes w.db.toTables di = true → diNoDependantVms w.db.toTables di = true →
      potentials w.db.toTables di ≠ [] →
        (1 ≤ n → ¬ Carries w.db.toTables di.id "default") ∧
        (n = 2 → ¬ Carries w.db.toTables di.id "head")
  | _ => True

end Specification

section Frame

variable {w : World} {t t' : Tables} {a : Action}

theorem tagsOk_iff : TagsOk w ↔ TagsUnique w.db.toTables ∧
    ∀ osf ∈ w.headPublished, (∃ id, PublishedIn w.db.toTables osf id) →
      ∃ id, PublishedIn w.db.toTables osf id ∧ Carries w.db.toTables id "head" := by
  unfold TagsOk
  constructor
  · rintro ⟨hunique, hhead⟩
    exact ⟨hunique, fun osf hosf hpub => (hhead osf hosf hpub).exists⟩
  · rintro ⟨hunique, hhead⟩
    refine ⟨hunique, fun osf hosf hpub => ?_⟩
    obtain ⟨id, hid, hcarries⟩ := hhead osf hosf hpub
    exact ⟨id, ⟨hid, hcarries⟩, fun b hb => hunique osf "head" b id hb.1 hid hb.2 hcarries⟩

/-- The same images are published, and they have no tags but those they had. -/
structure Kept (t t' : Tables) : Prop where
  published : ∀ osf id, PublishedIn t' osf id ↔ PublishedIn t osf id
  carries : ∀ osf id tag, PublishedIn t osf id → Carries t' id tag → Carries t id tag

theorem Kept.tagsUnique (h : Kept t t') (hunique : TagsUnique t) : TagsUnique t' := by
  intro osf tag x y hx hy hcx hcy
  rw [h.published] at hx hy
  exact hunique osf tag x y hx hy (h.carries osf x tag hx hcx) (h.carries osf y tag hy hcy)

/-- An image that is published now was so before. -/
theorem headPublications_eq_nil (h : ∀ osf id, PublishedIn t' osf id → PublishedIn t osf id) :
    headPublications t t' = [] := by
  simp only [headPublications, List.map_eq_nil_iff, List.filter_eq_nil_iff, Bool.and_eq_true,
    decide_eq_true_eq, Bool.not_eq_true']
  rintro di hdi ⟨⟨hstate, -⟩, hnew⟩
  obtain ⟨d, hd, hid, -, hstate'⟩ := h di.osfId di.id ⟨di, hdi, rfl, rfl, hstate⟩
  have : t.dis.any (fun d => decide (d.id = di.id) && decide (d.state = .published)) = true :=
    List.any_eq_true.mpr ⟨d, hd, by simp [hid, hstate']⟩
  rw [hnew] at this
  cases this

theorem mem_headPublished_of_kept (h : Kept w.db.toTables (w.db.after a).toTables) {osf : OsfId} :
    osf ∈ (w.after a).headPublished ↔ osf ∈ w.headPublished := by
  have hnil := headPublications_eq_nil fun osf id => (h.published osf id).mp
  rw [World.after, hnil, List.nil_append]

/-- A step that keeps the tag head on the published images keeps the tags right. -/
theorem TagsOk.of_kept (hok : TagsOk w) (h : Kept w.db.toTables (w.db.after a).toTables)
    (hhead : ∀ osf id, PublishedIn w.db.toTables osf id → Carries w.db.toTables id "head" →
      Carries (w.db.after a).toTables id "head") : TagsOk (w.after a) := by
  rw [tagsOk_iff] at hok ⊢
  refine ⟨h.tagsUnique hok.1, fun osf hosf hpub => ?_⟩
  rw [mem_headPublished_of_kept h] at hosf
  obtain ⟨x, hx⟩ := hpub
  obtain ⟨id, hid, hcarries⟩ := hok.2 osf hosf ⟨x, (h.published osf x).mp hx⟩
  exact ⟨id, (h.published osf id).mpr hid, hhead osf id hid hcarries⟩

theorem TagsOk.of_same (hok : TagsOk w) (h : (w.db.after a).toTables = w.db.toTables) :
    TagsOk (w.after a) := by
  apply hok.of_kept
  · rw [h]
    exact ⟨fun _ _ => Iff.rfl, fun _ _ _ _ hc => hc⟩
  · rw [h]
    exact fun _ _ _ hc => hc

end Frame

section Transactions

variable {db : Database} {t : Tables} {n : ℕ} {id : DiId} {di : Di}

theorem commit_ok (h : t.Valid) : commit t = .ok ⟨t, h⟩ :=
  dif_pos h

theorem commit_eq_ok {db' : Database} (h : commit t = .ok db') : db'.toTables = t := by
  unfold commit at h
  split at h
  · rw [Except.ok.injEq] at h
    exact h ▸ rfl
  · cases h

/-- The rows of the tags may be any rows of images. -/
theorem valid_rows (db : Database) {rows : List DiTag}
    (h : ∀ row ∈ rows, ∃ d ∈ db.dis, d.id = row.diId) :
    { db.toTables with diTags := rows }.Valid :=
  { db.valid with
    diTags_dis := fun row hrow => by
      obtain ⟨d, hd, hid⟩ := h row hrow
      exact List.mem_map.mpr ⟨d, hd, hid⟩ }

theorem valid_tagsConsolidate (h : t.Valid) (di : Di) : (tagsConsolidate t di).Valid :=
  { h with
    diTags_dis := fun row hrow => h.diTags_dis row (foldl_consolidateTag_subset _ _ hrow) }

theorem map_diStateUpdate {α : Type*} (t : Tables) (id : DiId) (state : DiState) (f : Di → α)
    (hf : ∀ d, f { d with state := state } = f d) :
    (diStateUpdate t id state).dis.map f = t.dis.map f := by
  simp only [diStateUpdate, List.map_map]
  apply List.map_congr_left
  intro d _
  simp only [Function.comp]
  split
  · exact hf d
  · rfl

theorem valid_diStateUpdate (h : t.Valid) (id : DiId) (state : DiState) :
    (diStateUpdate t id state).Valid where
  osfs_ids := h.osfs_ids
  dis_ids := by
    rw [map_diStateUpdate t id state Di.id fun _ => rfl]
    exact h.dis_ids
  dis_versions := by
    rw [map_diStateUpdate t id state (fun di => (di.osfId, di.version)) fun _ => rfl]
    exact h.dis_versions
  dis_osfs := by
    have hmap := map_diStateUpdate t id state Di.osfId fun _ => rfl
    intro d hd
    have hosf : d.osfId ∈ t.dis.map Di.osfId := hmap ▸ List.mem_map_of_mem hd
    obtain ⟨d', hd', hosf'⟩ := List.mem_map.mp hosf
    exact hosf' ▸ h.dis_osfs d' hd'
  diTags_dis := by
    rw [map_diStateUpdate t id state Di.id fun _ => rfl]
    exact h.diTags_dis

theorem valid_deleteDi (h : t.Valid) (di : Di) : (deleteDi t di).Valid where
  osfs_ids := h.osfs_ids
  dis_ids := (List.filter_sublist.map Di.id).nodup h.dis_ids
  dis_versions := (List.filter_sublist.map _).nodup h.dis_versions
  dis_osfs := fun d hd => h.dis_osfs d (List.mem_of_mem_filter hd)
  diTags_dis := by
    intro row hrow
    obtain ⟨hrow, hne⟩ := List.mem_filter.mp hrow
    obtain ⟨d, hd, hid⟩ := List.mem_map.mp (h.diTags_dis row hrow)
    refine List.mem_map.mpr ⟨d, List.mem_filter.mpr ⟨hd, ?_⟩, hid⟩
    rw [hid]
    exact hne

theorem find_error (h : ¬ ∃ di ∈ db.dis, di.id = id) (failure : Failure) :
    find db.toTables id failure = .error failure := by
  unfold find
  rw [List.find?_eq_none.mpr]
  simpa using h

theorem select_ok (hdi : di ∈ db.dis) (hid : di.id = id) : select db.toTables id = .ok di :=
  find_ok.mpr ⟨hdi, hid⟩

/-- A call of one part. -/
theorem runParts_single {part : Part} (hn : n ≠ 0) {db' : Database} (h : part db = .ok db') :
    runParts n [part] db = db' := by
  obtain ⟨n, rfl⟩ := Nat.exists_eq_succ_of_ne_zero hn
  rw [runParts, h]
  cases n <;> rfl

theorem runParts_error {part : Part} {rest : List Part} (failure : Failure)
    (h : part db = .error failure) : runParts n (part :: rest) db = db := by
  cases n with
  | zero => rfl
  | succ n => rw [runParts, h]

/-- A call on an image there is not. -/
theorem runParts_not_found (h : ¬ ∃ di ∈ db.dis, di.id = id) (k : Di → Part) (rest : List Part) :
    runParts n ((fun db => do k (← select db.toTables id) db) :: rest) db = db := by
  apply runParts_error (.exception 1300)
  simp only [select, find_error h, bind, Except.bind]

theorem runParts_single_cases (n : ℕ) (part : Part) (db : Database) :
    runParts n [part] db = db ∨ part db = .ok (runParts n [part] db) := by
  cases n with
  | zero => exact Or.inl rfl
  | succ n =>
    cases hpart : part db with
    | error failure => exact Or.inl (runParts_error failure hpart)
    | ok db' =>
      rw [runParts_single (Nat.succ_ne_zero n) hpart]
      exact Or.inr rfl

/-- What holds before a call and after each of its parts holds after the call. -/
theorem runParts_invariant {P : Database → Prop} {parts : List Part}
    (h : ∀ part ∈ parts, ∀ db db', P db → part db = .ok db' → P db') (hdb : P db) :
    P (runParts n parts db) := by
  induction n generalizing parts db with
  | zero => exact hdb
  | succ n ih =>
    match parts with
    | [] => exact hdb
    | part :: rest =>
      rw [List.forall_mem_cons] at h
      rw [runParts]
      split
      · exact hdb
      · rename_i db' hpart
        exact ih h.2 (h.1 db db' hdb hpart)

end Transactions

section Harmless

variable {w : World} {id : DiId} {n : ℕ}

/-- New rows of an image that is not published. -/
theorem carries_append {t : Tables} {rows : List DiTag} {x : DiId} {tag : String}
    (h : ∀ row ∈ rows, row.diId ≠ x) :
    Carries { t with diTags := t.diTags ++ rows } x tag ↔ Carries t x tag := by
  simp only [Carries, List.mem_append]
  constructor
  · rintro ⟨row, hrow | hrow, hid, htag⟩
    · exact ⟨row, hrow, hid, htag⟩
    · exact absurd hid (h row hrow)
  · rintro ⟨row, hrow, hid, htag⟩
    exact ⟨row, Or.inl hrow, hid, htag⟩

theorem tagsOk_vms (hok : TagsOk w) (vms : List Vm) : TagsOk (w.after (.vms vms)) :=
  hok.of_kept ⟨fun _ _ => Iff.rfl, fun _ _ _ _ hc => hc⟩ fun _ _ _ hc => hc

/-- The states of images that are made are not those of published ones. -/
theorem publishedIn_diStateUpdate {db : Database} {di : Di} {state : DiState} (hdi : di ∈ db.dis)
    (hid : di.id = id) (hdiState : di.state ≠ .published) (hstate : state ≠ .published)
    (osf : OsfId) (x : DiId) :
    PublishedIn (diStateUpdate db.toTables id state) osf x ↔ PublishedIn db.toTables osf x := by
  simp only [PublishedIn, diStateUpdate, List.mem_map]
  constructor
  · rintro ⟨_, ⟨d, hd, rfl⟩, hx, hosf, hpub⟩
    split at hpub
    · exact absurd hpub hstate
    · rename_i hne
      rw [if_neg hne] at hx hosf
      exact ⟨d, hd, hx, hosf, hpub⟩
  · rintro ⟨d, hd, hx, hosf, hpub⟩
    have hne : d.id ≠ id := by
      intro h
      rw [di_ext hd hdi (h.trans hid.symm)] at hpub
      exact hdiState hpub
    exact ⟨d, ⟨d, hd, if_neg hne⟩, hx, hosf, hpub⟩

theorem tagsOk_prepare (hok : TagsOk w) (id : DiId) (state : DiState) :
    TagsOk (w.after (.prepare id state)) := by
  by_cases hfind : ∃ di ∈ w.db.dis, di.id = id
  · obtain ⟨di, hdi, hid⟩ := hfind
    have hafter : w.db.after (.prepare id state) =
        if di.state = .published ∨ state = .published then w.db
        else ⟨diStateUpdate w.db.toTables id state, valid_diStateUpdate w.db.valid id state⟩ := by
      simp only [Database.after, Database.prepare, find_ok.mpr ⟨hdi, hid⟩,
        commit_ok (valid_diStateUpdate w.db.valid id state)]
    by_cases hpub : di.state = .published ∨ state = .published
    · rw [if_pos hpub] at hafter
      exact hok.of_same (congrArg Database.toTables hafter)
    · rw [if_neg hpub] at hafter
      rw [not_or] at hpub
      apply hok.of_kept
      · rw [hafter]
        exact ⟨publishedIn_diStateUpdate hdi hid hpub.1 hpub.2, fun _ _ _ _ hc => hc⟩
      · rw [hafter]
        exact fun _ _ _ hc => hc
  · apply hok.of_same
    simp only [Database.after, Database.prepare]
    rw [find_error hfind]

theorem tagsOk_tagsDelete (hok : TagsOk w) (id : DiId) (names : List (Option String)) (n : ℕ) :
    TagsOk (w.after (.call (.tagsDelete id names) n)) := by
  have hcases := runParts_single_cases n (fun db => do
    let rows ← DiskImages.tagsDelete (← select db.toTables id) names db.diTags
    commit { db.toTables with diTags := rows }) w.db
  rcases hcases with hsame | hpart
  · exact hok.of_same (congrArg Database.toTables hsame)
  · dsimp only [bind, Except.bind] at hpart
    split at hpart
    · cases hpart
    · split at hpart
      · cases hpart
      · rename_i rows hdelete
        have htables : (w.db.after (.call (.tagsDelete id names) n)).toTables =
            { w.db.toTables with diTags := rows } := commit_eq_ok hpart
        apply hok.of_kept
        · constructor
          · intro osf x
            exact htables ▸ Iff.rfl
          · rintro osf x tag - hc
            rw [htables] at hc
            obtain ⟨row, hrow, hx, htag⟩ := hc
            exact ⟨row, tagsDelete_subset hdelete hrow, hx, htag⟩
        · rintro osf x - ⟨row, hrow, hx, htag⟩
          rw [htables]
          exact ⟨row, mem_of_tagsDelete hdelete hrow htag, hx, htag⟩

/-- What a creation leaves of the tags of the images there are. -/
def SameElsewhere (t t' : Tables) (id : DiId) : Prop :=
  (∀ osf x, PublishedIn t' osf x ↔ PublishedIn t osf x) ∧
    ∀ x tag, x ≠ id → (Carries t' x tag ↔ Carries t x tag)

theorem sameElsewhere_create {c : Creation} {db db' : Database} (h : create c db = .ok db') :
    SameElsewhere db.toTables db'.toTables c.id ∧
      ∀ osf, ¬ PublishedIn db.toTables osf c.id := by
  let di := { id := c.id, osfId := c.osfId, version := c.version, path := c.diskImage
              blocked := c.blocked, state := .new : Di }
  let t := { db.toTables with dis := db.dis ++ [di] }
  have htables : db'.toTables = withTags t di c.tags := by
    unfold create at h
    dsimp only at h
    split at h
    · cases h
    · split at h
      · cases h
      · by_cases hrefused : Refused t di c.tags
        · obtain ⟨failure, herror⟩ := tagsCreate_error hrefused
          change (DiskImages.tagsCreate t c.tags di).bind commit = _ at h
          rw [herror] at h
          cases h
        · change (DiskImages.tagsCreate t c.tags di).bind commit = _ at h
          rw [tagsCreate_ok hrefused, if_neg (by simp [di])] at h
          exact commit_eq_ok h
  have hnew : ∀ d ∈ db.dis, d.id ≠ c.id := by
    have hnodup := db'.valid.dis_ids
    rw [htables] at hnodup
    have hnodup : (db.dis.map Di.id ++ [c.id]).Nodup := by simpa [withTags, t, di] using hnodup
    intro d hd hid
    exact (List.nodup_append.mp hnodup).2.2 d.id (List.mem_map_of_mem hd) c.id (by simp) hid
  refine ⟨⟨fun osf x => ?_, fun x tag hx => ?_⟩, fun osf hpub => ?_⟩
  · rw [htables]
    simp only [PublishedIn, withTags, t, di, List.mem_append, List.mem_singleton]
    constructor
    · rintro ⟨d, hd | rfl, hid, hosf, hstate⟩
      · exact ⟨d, hd, hid, hosf, hstate⟩
      · cases hstate
    · rintro ⟨d, hd, hid, hosf, hstate⟩
      exact ⟨d, Or.inl hd, hid, hosf, hstate⟩
  · rw [htables, carries_withTags]
    exact or_iff_left fun hnew => hx hnew.1
  · obtain ⟨d, hd, hid, -⟩ := hpub
    exact hnew d hd hid

theorem sameElsewhere_createTag {t : Tables} {row : DiTag} {db db' : Database}
    (hsame : SameElsewhere t db.toTables row.diId) (h : createTag row db = .ok db') :
    SameElsewhere t db'.toTables row.diId := by
  have htables := commit_eq_ok h
  refine ⟨fun osf x => ?_, fun x tag hx => ?_⟩
  · rw [htables]
    exact hsame.1 osf x
  · rw [htables, ← hsame.2 x tag hx]
    exact carries_append (by simpa using Ne.symm hx)

theorem tagsOk_diCreate (hok : TagsOk w) (c : Creation) (n : ℕ) :
    TagsOk (w.after (.call (.diCreate c) n)) := by
  cases n with
  | zero => exact hok.of_same rfl
  | succ n =>
    cases hcreate : create c w.db with
    | error failure => exact hok.of_same (congrArg Database.toTables (runParts_error failure hcreate))
    | ok db =>
      obtain ⟨hsame, hnew⟩ := sameElsewhere_create hcreate
      have hafter : w.db.after (.call (.diCreate c) (n + 1)) = runParts n
          [createTag { diId := c.id, tag := c.version, fixed := true },
            createTag { diId := c.id, tag := "head", fixed := false }] db := by
        simp only [Database.after, Call.parts, diCreate, runParts, hcreate]
      have hrun : SameElsewhere w.db.toTables (w.db.after (.call (.diCreate c) (n + 1))).toTables
          c.id := by
        rw [hafter]
        apply runParts_invariant (P := fun db => SameElsewhere w.db.toTables db.toTables c.id)
        · intro part hpart db db' h hpart'
          rcases List.mem_pair.mp hpart with rfl | rfl
          · exact sameElsewhere_createTag h hpart'
          · exact sameElsewhere_createTag h hpart'
        · exact hsame
      have hne : ∀ osf x, PublishedIn w.db.toTables osf x → x ≠ c.id := by
        rintro osf x hx rfl
        exact hnew osf hx
      apply hok.of_kept
      · exact ⟨hrun.1, fun osf x tag hx => (hrun.2 x tag (hne osf x hx)).mp⟩
      · exact fun osf x hx => (hrun.2 x "head" (hne osf x hx)).mpr

end Harmless

section Consolidation

variable {w : World} {db : Database} {di : Di} {a : Action} {tag : String}

def consolidated (db : Database) (di : Di) : Database :=
  ⟨tagsConsolidate db.toTables di, valid_tagsConsolidate db.valid di⟩

theorem rivals_consolidated : rivals (consolidated db di).toTables di tag = 0 ↔
    fixedTag db.toTables di tag = true ∨
      rivals db.toTables di tag ≤ copies db.toTables di tag := by
  show rivals (tagsConsolidate db.toTables di) di tag = 0 ↔ _
  rw [rivals_tagsConsolidate]
  by_cases hfixed : fixedTag db.toTables di tag = true
  · simp [hfixed]
  · simp only [hfixed, if_false, false_or, Bool.false_eq_true]
    exact Nat.sub_eq_zero_iff_le

theorem carries_consolidated {osf : OsfId} {p : DiId} (hp : PublishedIn db.toTables osf p)
    (hc : Carries db.toTables p tag)
    (h : p = di.id ∨ ¬ Carries db.toTables di.id tag ∨ osf ≠ di.osfId) :
    Carries (consolidated db di).toTables p tag := by
  apply (carries_tagsConsolidate (h.imp_right (Or.imp_right ?_))).mpr hc
  intro hne d hd hid
  rw [← hid] at hp
  rw [((publishedIn_iff hd).mp hp).1]
  exact hne

/-- The tags are unique when none of those of an image is left on another. -/
theorem unique_of_rivals (db : Database) (di : Di) {Q : OsfId → DiId → Prop}
    (hQ : ∀ osf id, Q osf id → id ≠ di.id → PublishedIn db.toTables osf id)
    (hdi : ∀ osf, Q osf di.id → osf = di.osfId)
    (hothers : ∀ osf tag x y, PublishedIn db.toTables osf x → PublishedIn db.toTables osf y →
      Carries db.toTables x tag → Carries db.toTables y tag → x ≠ di.id → y ≠ di.id → x = y)
    (hrivals : ∀ tag, Carries db.toTables di.id tag →
      rivals (consolidated db di).toTables di tag = 0)
    {osf : OsfId} {tag : String} {x y : DiId} (hx : Q osf x) (hy : Q osf y)
    (hcx : Carries (consolidated db di).toTables x tag)
    (hcy : Carries (consolidated db di).toTables y tag) : x = y := by
  have key : ∀ z, Q osf di.id → Carries (consolidated db di).toTables di.id tag → Q osf z →
      Carries (consolidated db di).toTables z tag → z = di.id := by
    intro z hQdi hcdi hQz hcz
    by_contra hne
    have hpub := hQ osf z hQz hne
    rw [hdi osf hQdi] at hpub
    exact hne (rivals_eq_zero_iff.mp (hrivals tag hcdi.of_tagsConsolidate) z hpub hcz)
  by_cases hxdi : x = di.id
  · subst hxdi
    exact (key y hx hcx hy hcy).symm
  · by_cases hydi : y = di.id
    · subst hydi
      exact key x hy hcy hx hcx
    · exact hothers osf tag x y (hQ osf x hx hxdi) (hQ osf y hy hydi) hcx.of_tagsConsolidate
        hcy.of_tagsConsolidate hxdi hydi

theorem kept_consolidated (db : Database) (di : Di) :
    Kept db.toTables (consolidated db di).toTables :=
  ⟨fun _ _ => Iff.rfl, fun _ _ _ _ hc => hc.of_tagsConsolidate⟩

/-- A consolidation of an image that is not published and stays so. -/
theorem tagsOk_consolidated (hok : TagsOk w) (hdi : di ∈ w.db.dis) (hstate : di.state ≠ .published)
    (hafter : w.db.after a = consolidated w.db di) :
    TagsOk (w.after a) ↔ HeadSurvives w di := by
  have hdb : (w.after a).db = consolidated w.db di := hafter
  have hkept : Kept w.db.toTables (w.db.after a).toTables := hafter ▸ kept_consolidated w.db di
  have hnot : ∀ osf, ¬ PublishedIn w.db.toTables osf di.id := fun osf h =>
    hstate ((publishedIn_iff hdi).mp h).2
  rw [tagsOk_iff] at hok ⊢
  rw [hdb]
  constructor
  · rintro ⟨-, hhead⟩ hosf hpub hc
    obtain ⟨x, hx, hcx⟩ := hhead di.osfId ((mem_headPublished_of_kept hkept).mpr hosf) hpub
    have hrivals : ¬ rivals (consolidated w.db di).toTables di "head" = 0 := by
      intro hzero
      rw [rivals_eq_zero_iff.mp hzero x hx hcx] at hx
      exact hnot _ hx
    rw [rivals_consolidated] at hrivals
    grind
  · intro hsurvives
    refine ⟨(kept_consolidated w.db di).tagsUnique hok.1, fun osf hosf hpub => ?_⟩
    rw [mem_headPublished_of_kept hkept] at hosf
    obtain ⟨p, hp, hcp⟩ := hok.2 osf hosf hpub
    by_cases h : Carries w.db.toTables di.id "head" ∧ osf = di.osfId
    · obtain ⟨hc, rfl⟩ := h
      have hrivals : rivals (consolidated w.db di).toTables di "head" ≠ 0 := by
        rw [Ne, rivals_consolidated]
        have := hsurvives hosf hpub hc
        grind
      rw [Ne, rivals_eq_zero_iff] at hrivals
      push Not at hrivals
      obtain ⟨x, hx, hcx, -⟩ := hrivals
      exact ⟨x, hx, hcx⟩
    · exact ⟨p, hp, carries_consolidated hp hcp (by grind)⟩

/-- A consolidation of a published image changes nothing that matters. -/
theorem tagsOk_consolidated_published (hok : TagsOk w) (hdi : di ∈ w.db.dis)
    (hstate : di.state = .published) (hafter : w.db.after a = consolidated w.db di) :
    TagsOk (w.after a) := by
  apply hok.of_kept
  · rw [hafter]
    exact kept_consolidated w.db di
  · intro osf p hp hcp
    rw [hafter]
    apply carries_consolidated hp hcp
    by_contra hne
    push Not at hne
    have hpub := (publishedIn_iff hdi).mpr ⟨rfl, hstate⟩
    rw [hne.2.2] at hp
    exact hne.1 (hok.1 di.osfId "head" p di.id hp hpub hcp hne.2.1)

theorem tagsOk_tagsConsolidate_iff (hok : TagsOk w) (id : DiId) (n : ℕ) :
    TagsOk (w.after (.call (.tagsConsolidate id) n)) ↔
      StepOk w (.call (.tagsConsolidate id) n) := by
  by_cases hn : n = 0
  · subst hn
    exact iff_of_true (hok.of_same rfl) fun h => absurd rfl h
  by_cases hfind : ∃ di ∈ w.db.dis, di.id = id
  · obtain ⟨di, hdi, hid⟩ := hfind
    have hafter : w.db.after (.call (.tagsConsolidate id) n) = consolidated w.db di := by
      apply runParts_single hn
      simp only [select_ok hdi hid, bind, Except.bind]
      exact commit_ok (valid_tagsConsolidate w.db.valid di)
    by_cases hstate : di.state = .published
    · apply iff_of_true (tagsOk_consolidated_published hok hdi hstate hafter)
      intro _ d hd hid' hne
      rw [di_ext hd hdi (hid'.trans hid.symm)] at hne
      exact absurd hstate hne
    · rw [tagsOk_consolidated hok hdi hstate hafter]
      constructor
      · intro h _ d hd hid' _
        rwa [di_ext hd hdi (hid'.trans hid.symm)]
      · exact fun h => h hn di hdi hid hstate
  · apply iff_of_true
    · exact hok.of_same (congrArg Database.toTables (runParts_not_found hfind _ _))
    · exact fun _ di hdi hid => absurd ⟨di, hdi, hid⟩ hfind

end Consolidation

section Creation

variable {w : World} {di : Di} {names : List (Option String)}

theorem valid_withTags {db : Database} (hdi : di ∈ db.dis) (names : List (Option String)) :
    (withTags db.toTables di names).Valid := by
  apply valid_rows
  intro row hrow
  rcases List.mem_append.mp hrow with hrow | hrow
  · exact exists_di hrow
  · obtain ⟨name, -, rfl⟩ := List.mem_map.mp hrow
    exact ⟨di, hdi, rfl⟩

/-- New tags of an image that is not published are of no account. -/
theorem tagsOk_withTags {a : Action} (hok : TagsOk w) (hdi : di ∈ w.db.dis)
    (hstate : di.state ≠ .published)
    (hafter : (w.db.after a).toTables = withTags w.db.toTables di names) : TagsOk (w.after a) := by
  have hnot : ∀ osf x, PublishedIn w.db.toTables osf x → x ≠ di.id := by
    rintro osf x hx rfl
    exact hstate ((publishedIn_iff hdi).mp hx).2
  apply hok.of_kept
  · rw [hafter]
    refine ⟨fun _ _ => Iff.rfl, fun osf x tag hx hc => ?_⟩
    exact (carries_withTags.mp hc).resolve_right fun hnew => hnot osf x hx hnew.1
  · rw [hafter]
    exact fun _ _ _ hc => carries_withTags.mpr (Or.inl hc)

/-- New tags of a published image, followed by its consolidation. -/
theorem tagsOk_consolidated_withTags {a : Action} (db : Database) (hok : TagsOk w)
    (hdi : di ∈ w.db.dis) (hstate : di.state = .published)
    (hnot : ¬ Refused w.db.toTables di names)
    (hdb : db.toTables = withTags w.db.toTables di names)
    (hafter : w.db.after a = consolidated db di) :
    TagsOk (w.after a) ↔ ∀ name ∈ given names, rivals w.db.toTables di name ≤
      copies w.db.toTables di name + (given names).count name := by
  have hpub : ∀ osf x, PublishedIn db.toTables osf x ↔ PublishedIn w.db.toTables osf x := by
    rw [hdb]
    exact fun _ _ => Iff.rfl
  have hdiPub : PublishedIn w.db.toTables di.osfId di.id := (publishedIn_iff hdi).mpr ⟨rfl, hstate⟩
  have hcarries : ∀ x tag, Carries db.toTables x tag ↔
      Carries w.db.toTables x tag ∨ (x = di.id ∧ tag ∈ given names) := by
    rw [hdb]
    exact fun _ _ => carries_withTags
  have hrivals : ∀ tag, rivals (consolidated db di).toTables di tag = 0 ↔
      fixedTag w.db.toTables di tag = true ∨ rivals w.db.toTables di tag ≤
        copies w.db.toTables di tag + (given names).count tag := by
    intro tag
    rw [rivals_consolidated, hdb, fixedTag_withTags, rivals_withTags, copies_withTags]
  have hnotFixed : ∀ name ∈ given names, fixedTag w.db.toTables di name = false := by
    intro name hname
    by_contra hfixed
    rw [Bool.not_eq_false, fixedTag, List.any_eq_true] at hfixed
    obtain ⟨row, hrow, hcond⟩ := hfixed
    simp only [Bool.and_eq_true, decide_eq_true_eq] at hcond
    refine hnot ⟨name, hname, row, hrow, hcond.1.2, ?_, hcond.2⟩
    exact List.any_eq_true.mpr ⟨di, hdi, by simp [hcond.1.1]⟩
  have hkept : headPublications w.db.toTables (w.db.after a).toTables = [] := by
    apply headPublications_eq_nil
    rw [hafter]
    exact fun osf x hx => (hpub osf x).mp hx
  have hhistory : (w.after a).headPublished = w.headPublished := by
    rw [World.after, hkept, List.nil_append]
  have hworld : (w.after a).db = consolidated db di := hafter
  rw [tagsOk_iff] at hok ⊢
  rw [hworld, hhistory]
  constructor
  · rintro ⟨hunique, -⟩ name hname
    have hzero : rivals (consolidated db di).toTables di name = 0 := by
      rw [rivals_eq_zero_iff]
      intro x hx hcx
      refine hunique di.osfId name x di.id hx ((hpub _ _).mpr hdiPub) hcx ?_
      exact (carries_tagsConsolidate (Or.inl rfl)).mpr
        ((hcarries di.id name).mpr (Or.inr ⟨rfl, hname⟩))
    have := (hrivals name).mp hzero
    rwa [hnotFixed name hname, or_iff_right (by simp)] at this
  · intro hcounts
    constructor
    · intro osf tag x y hx hy hcx hcy
      refine unique_of_rivals db di (Q := PublishedIn db.toTables) (fun _ _ h _ => h)
        ?_ ?_ ?_ hx hy hcx hcy
      · intro osf h
        exact ((hpub osf di.id).mp h).osf_eq hdiPub
      · intro osf tag x y hx hy hcx hcy hnx hny
        rw [hpub] at hx hy
        rw [hcarries] at hcx hcy
        exact hok.1 osf tag x y hx hy (hcx.resolve_right fun h => hnx h.1)
          (hcy.resolve_right fun h => hny h.1)
      · intro tag hc
        rw [hrivals]
        rcases (hcarries di.id tag).mp hc with hold | ⟨-, hnew⟩
        · have hzero : rivals w.db.toTables di tag = 0 :=
            rivals_eq_zero_iff.mpr fun id hid hcid => hok.1 di.osfId tag id di.id hid hdiPub hcid hold
          omega
        · exact Or.inr (hcounts tag hnew)
    · intro osf hosf hx
      obtain ⟨x, hx⟩ := hx
      obtain ⟨p, hp, hcp⟩ := hok.2 osf hosf ⟨x, (hpub osf x).mp hx⟩
      have hcp' : Carries db.toTables p "head" := (hcarries p "head").mpr (Or.inl hcp)
      by_cases h : Carries db.toTables di.id "head" ∧ osf = di.osfId
      · obtain ⟨hc, rfl⟩ := h
        exact ⟨di.id, (hpub _ _).mpr hdiPub, (carries_tagsConsolidate (Or.inl rfl)).mpr hc⟩
      · exact ⟨p, (hpub osf p).mpr hp,
          carries_consolidated ((hpub osf p).mpr hp) hcp' (by grind)⟩

theorem tagsOk_tagsCreate_iff (hok : TagsOk w) (id : DiId) (names : List (Option String)) (n : ℕ) :
    TagsOk (w.after (.call (.tagsCreate id names) n)) ↔
      StepOk w (.call (.tagsCreate id names) n) := by
  by_cases hn : n = 0
  · subst hn
    exact iff_of_true (hok.of_same rfl) fun h => absurd rfl h
  by_cases hfind : ∃ di ∈ w.db.dis, di.id = id
  · obtain ⟨di, hdi, hid⟩ := hfind
    have hstep : StepOk w (.call (.tagsCreate id names) n) ↔
        (di.state = .published → ¬ Refused w.db.toTables di names → ∀ name ∈ given names,
          rivals w.db.toTables di name ≤
            copies w.db.toTables di name + (given names).count name) := by
      constructor
      · exact fun h => h hn di hdi hid
      · intro h _ d hd hid'
        rwa [di_ext hd hdi (hid'.trans hid.symm)]
    by_cases hrefused : Refused w.db.toTables di names
    · obtain ⟨failure, herror⟩ := tagsCreate_error hrefused
      apply iff_of_true
      · apply hok.of_same
        apply congrArg Database.toTables
        apply runParts_error failure
        simp only [select_ok hdi hid, herror, bind, Except.bind]
      · exact hstep.mpr fun _ hnot => absurd hrefused hnot
    · have hpart : ∀ db, commit (if di.state = .published then
            tagsConsolidate (withTags w.db.toTables di names) di
          else withTags w.db.toTables di names) = .ok db →
          w.db.after (.call (.tagsCreate id names) n) = db := by
        intro db hcommit
        apply runParts_single hn
        simp only [select_ok hdi hid, tagsCreate_ok hrefused, bind, Except.bind]
        exact hcommit
      have hvalid := valid_withTags hdi names
      by_cases hstate : di.state = .published
      · rw [if_pos hstate] at hpart
        have hafter := hpart _ (commit_ok (valid_tagsConsolidate hvalid di))
        rw [hstep, tagsOk_consolidated_withTags ⟨_, hvalid⟩ hok hdi hstate hrefused rfl hafter]
        exact ⟨fun h _ _ => h, fun h => h hstate hrefused⟩
      · rw [if_neg hstate] at hpart
        have hafter := hpart _ (commit_ok hvalid)
        apply iff_of_true
        · exact tagsOk_withTags hok hdi hstate (congrArg Database.toTables hafter)
        · exact hstep.mpr fun h => absurd h hstate
  · apply iff_of_true
    · exact hok.of_same (congrArg Database.toTables (runParts_not_found hfind _ _))
    · exact fun _ di hdi hid => absurd ⟨di, hdi, hid⟩ hfind

end Creation

section Publication

variable {w : World} {db : Database} {di : Di}

def publishedDb (db : Database) (di : Di) : Database :=
  ⟨diStateUpdate (tagsConsolidate db.toTables di) di.id .published,
    valid_diStateUpdate (valid_tagsConsolidate db.valid di) di.id .published⟩

theorem mem_publishedDb {d : Di} (hdi : di ∈ db.dis) : d ∈ (publishedDb db di).dis ↔
    (d ∈ db.dis ∧ d.id ≠ di.id) ∨ d = { di with state := .published } := by
  show d ∈ db.dis.map _ ↔ _
  rw [List.mem_map]
  constructor
  · rintro ⟨e, he, rfl⟩
    split
    · rename_i hid
      rw [di_ext he hdi hid]
      exact Or.inr rfl
    · rename_i hne
      exact Or.inl ⟨he, hne⟩
  · rintro (⟨hd, hne⟩ | rfl)
    · exact ⟨d, hd, if_neg hne⟩
    · exact ⟨di, hdi, if_pos rfl⟩

theorem publishedIn_publishedDb (hdi : di ∈ db.dis) (hstate : di.state ≠ .published) {osf : OsfId}
    {x : DiId} : PublishedIn (publishedDb db di).toTables osf x ↔
      PublishedIn db.toTables osf x ∨ (x = di.id ∧ osf = di.osfId) := by
  simp only [PublishedIn, mem_publishedDb hdi]
  constructor
  · rintro ⟨d, ⟨hd, -⟩ | rfl, hid, hosf, hpub⟩
    · exact Or.inl ⟨d, hd, hid, hosf, hpub⟩
    · exact Or.inr ⟨hid.symm, hosf.symm⟩
  · rintro (⟨d, hd, hid, hosf, hpub⟩ | ⟨rfl, rfl⟩)
    · refine ⟨d, Or.inl ⟨hd, fun h => ?_⟩, hid, hosf, hpub⟩
      rw [di_ext hd hdi h] at hpub
      exact hstate hpub
    · exact ⟨_, Or.inr rfl, rfl, rfl, rfl⟩

theorem carries_publishedDb_self {tag : String} :
    Carries (publishedDb db di).toTables di.id tag ↔ Carries db.toTables di.id tag :=
  carries_tagsConsolidate (Or.inl rfl)

theorem mem_headPublications (hdi : di ∈ db.dis) (hstate : di.state ≠ .published) {osf : OsfId} :
    osf ∈ headPublications db.toTables (publishedDb db di).toTables ↔
      osf = di.osfId ∧ Carries db.toTables di.id "head" := by
  have hnot : db.dis.any (fun d => decide (d.id = di.id) && decide (d.state = .published)) =
      false := by
    simp only [List.any_eq_false, Bool.and_eq_true, decide_eq_true_eq]
    rintro d hd ⟨hid, hpub⟩
    rw [di_ext hd hdi hid] at hpub
    exact hstate hpub
  simp only [headPublications, List.mem_map, List.mem_filter, mem_publishedDb hdi,
    Bool.and_eq_true, decide_eq_true_eq, hasTag_iff, Bool.not_eq_true']
  constructor
  · rintro ⟨d, ⟨⟨hd, -⟩ | rfl, ⟨hpub, hhead⟩, hnew⟩, rfl⟩
    · have : db.dis.any (fun e => decide (e.id = d.id) && decide (e.state = .published)) =
          true := List.any_eq_true.mpr ⟨d, hd, by simp [hpub]⟩
      rw [hnew] at this
      cases this
    · exact ⟨rfl, carries_publishedDb_self.mp hhead⟩
  · rintro ⟨rfl, hhead⟩
    exact ⟨_, ⟨Or.inr rfl, ⟨rfl, carries_publishedDb_self.mpr hhead⟩, hnot⟩, rfl⟩

/-- A whole publication. -/
theorem tagsOk_publishedDb {a : Action} (hok : TagsOk w) (hdi : di ∈ w.db.dis)
    (hstate : di.state ≠ .published) (hafter : w.db.after a = publishedDb w.db di) :
    TagsOk (w.after a) ↔ TagsTaken w.db.toTables di ∧
      (Carries w.db.toTables di.id "head" ∨ di.osfId ∉ w.headPublished ∨
        ∃ id, PublishedIn w.db.toTables di.osfId id) := by
  have hpub : ∀ osf x, PublishedIn (publishedDb w.db di).toTables osf x ↔
      PublishedIn w.db.toTables osf x ∨ (x = di.id ∧ osf = di.osfId) :=
    fun _ _ => publishedIn_publishedDb hdi hstate
  have hnot : ∀ osf, ¬ PublishedIn w.db.toTables osf di.id := fun osf h =>
    hstate ((publishedIn_iff hdi).mp h).2
  have hhistory : ∀ osf, osf ∈ (w.after a).headPublished ↔
      (osf = di.osfId ∧ Carries w.db.toTables di.id "head") ∨ osf ∈ w.headPublished := by
    intro osf
    rw [World.after, List.mem_append, hafter, mem_headPublications hdi hstate]
  have hworld : (w.after a).db = publishedDb w.db di := hafter
  rw [tagsOk_iff] at hok ⊢
  rw [hworld]
  constructor
  · rintro ⟨hunique, hhead⟩
    constructor
    · intro tag hc
      rw [← rivals_consolidated, rivals_eq_zero_iff]
      intro x hx hcx
      exact hunique di.osfId tag x di.id ((hpub _ _).mpr (Or.inl hx))
        ((hpub _ _).mpr (Or.inr ⟨rfl, rfl⟩)) hcx (carries_publishedDb_self.mpr hc)
    · by_contra hnone
      push Not at hnone
      obtain ⟨hc, hosf, hempty⟩ := hnone
      obtain ⟨x, hx, hcx⟩ := hhead di.osfId ((hhistory _).mpr (Or.inr hosf))
        ⟨di.id, (hpub _ _).mpr (Or.inr ⟨rfl, rfl⟩)⟩
      rcases (hpub _ _).mp hx with hx | ⟨rfl, -⟩
      · exact hempty x hx
      · exact hc (carries_publishedDb_self.mp hcx)
  · rintro ⟨htaken, hhead⟩
    constructor
    · intro osf tag x y hx hy hcx hcy
      refine unique_of_rivals w.db di
        (Q := PublishedIn (publishedDb w.db di).toTables) ?_ ?_ ?_ ?_ hx hy hcx hcy
      · exact fun osf id h hne => ((hpub osf id).mp h).resolve_right fun h => hne h.1
      · exact fun osf h => (((hpub osf di.id).mp h).resolve_left (hnot osf)).2
      · exact fun osf tag x y hx hy hcx hcy _ _ => hok.1 osf tag x y hx hy hcx hcy
      · exact fun tag hc => rivals_consolidated.mpr (htaken tag hc)
    · rintro osf hosf ⟨x, hx⟩
      by_cases h : osf = di.osfId ∧ Carries w.db.toTables di.id "head"
      · obtain ⟨rfl, hc⟩ := h
        exact ⟨di.id, (hpub _ _).mpr (Or.inr ⟨rfl, rfl⟩), carries_publishedDb_self.mpr hc⟩
      · have hold : osf ∈ w.headPublished := ((hhistory osf).mp hosf).resolve_left h
        have hsome : ∃ id, PublishedIn w.db.toTables osf id := by
          rcases (hpub osf x).mp hx with hx | ⟨-, rfl⟩
          · exact ⟨x, hx⟩
          · exact (hhead.resolve_left fun hc => h ⟨rfl, hc⟩).resolve_left fun hn => hn hold
        obtain ⟨p, hp, hcp⟩ := hok.2 osf hold hsome
        exact ⟨p, (hpub osf p).mpr (Or.inl hp), carries_consolidated hp hcp (by grind)⟩

theorem tagsOk_diPublish_iff (hok : TagsOk w) (id : DiId) (n : ℕ) :
    TagsOk (w.after (.call (.diPublish id) n)) ↔ StepOk w (.call (.diPublish id) n) := by
  by_cases hready : ∃ di ∈ w.db.dis, di.id = id ∧ di.state = .ready
  · obtain ⟨di, hdi, rfl, hstate⟩ := hready
    have hne : di.state ≠ .published := by
      rw [hstate]
      decide
    have hstep : StepOk w (.call (.diPublish di.id) n) ↔ (n = 1 → HeadSurvives w di) ∧
        (2 ≤ n → TagsTaken w.db.toTables di ∧ (Carries w.db.toTables di.id "head" ∨
          di.osfId ∉ w.headPublished ∨ ∃ id, PublishedIn w.db.toTables di.osfId id)) := by
      constructor
      · exact fun h => h di hdi rfl hstate
      · intro h d hd hid _
        rwa [di_ext hd hdi hid]
    have hfirst : ∀ k rest, runParts (k + 1) ((fun db => do
        let d ← find db.toTables di.id .died
        if d.state ≠ .ready then .error (.exception 1100)
        else commit (tagsConsolidate db.toTables d)) :: rest) w.db =
          runParts k rest (consolidated w.db di) := by
      intro k rest
      simp only [runParts, find_ok.mpr ⟨hdi, rfl⟩, bind, Except.bind, hstate, ne_eq,
        not_true_eq_false, if_false, commit_ok (valid_tagsConsolidate w.db.valid di)]
      rfl
    rw [hstep]
    match n with
    | 0 => exact iff_of_true (hok.of_same rfl) ⟨by simp, by simp⟩
    | 1 =>
      have hafter : w.db.after (.call (.diPublish di.id) 1) = consolidated w.db di := hfirst 0 _
      rw [tagsOk_consolidated hok hdi hne hafter]
      simp
    | k + 2 =>
      have hafter : w.db.after (.call (.diPublish di.id) (k + 2)) = publishedDb w.db di := by
        refine (hfirst (k + 1) _).trans (runParts_single (Nat.succ_ne_zero k) ?_)
        exact commit_ok (publishedDb w.db di).valid
      rw [tagsOk_publishedDb hok hdi hne hafter]
      simp
  · apply iff_of_true
    · apply hok.of_same
      apply congrArg Database.toTables
      show runParts n (diPublish id) w.db = w.db
      by_cases hfind : ∃ di ∈ w.db.dis, di.id = id
      · obtain ⟨di, hdi, rfl⟩ := hfind
        have hstate : di.state ≠ .ready := fun h => hready ⟨di, hdi, rfl, h⟩
        apply runParts_error (.exception 1100)
        simp only [find_ok.mpr ⟨hdi, rfl⟩, bind, Except.bind, hstate, ne_eq, not_false_eq_true,
          if_true]
      · apply runParts_error .died
        simp only [find_error hfind, bind, Except.bind]
    · exact fun di hdi hid hstate => absurd ⟨di, hdi, hid, hstate⟩ hready

end Publication

section Deletion

variable {w : World} {db : Database} {t : Tables} {di : Di} {tag : String}

/-- The tables after one round of the loop that gives the tags of the image away. -/
def reassign (t : Tables) (tag : String) (di : Di) : Tables :=
  if di.state = .published ∧ hasTag t di tag then
    match (potentials t di).getLast? with
    | none => t
    | some newDi => { t with diTags := t.diTags ++ [{ diId := newDi.id, tag := tag, fixed := false }] }
  else t

@[simp]
theorem reassign_dis : (reassign t tag di).dis = t.dis := by
  unfold reassign
  split
  · split <;> rfl
  · rfl

theorem publishedIn_reassign {osf : OsfId} {x : DiId} :
    PublishedIn (reassign t tag di) osf x ↔ PublishedIn t osf x := by
  simp only [PublishedIn, reassign_dis]

theorem mem_potentials {d : Di} : d ∈ potentials t di ↔
    d ∈ t.dis ∧ d.osfId = di.osfId ∧ d.id ≠ di.id ∧ d.state = .published := by
  simp [potentials, and_assoc]

/-- The tags after a round: the last of the other published images may have got one. -/
theorem carries_reassign {x : DiId} {tag' : String} : Carries (reassign t tag di) x tag' ↔
    Carries t x tag' ∨ (tag' = tag ∧ di.state = .published ∧ Carries t di.id tag ∧
      ∃ newDi, (potentials t di).getLast? = some newDi ∧ x = newDi.id) := by
  unfold reassign
  split
  · rename_i hcond
    rw [hasTag_iff] at hcond
    cases hlast : (potentials t di).getLast? with
    | none => simp
    | some newDi =>
      simp only [Carries, List.mem_append, List.mem_singleton, hcond.1, true_and,
        Option.some.injEq, exists_eq_left']
      constructor
      · rintro ⟨row, hrow | rfl, hid, htag⟩
        · exact Or.inl ⟨row, hrow, hid, htag⟩
        · exact Or.inr ⟨htag.symm, hcond.2, hid.symm⟩
      · rintro (⟨row, hrow, hid, htag⟩ | ⟨rfl, -, rfl⟩)
        · exact ⟨row, Or.inl hrow, hid, htag⟩
        · exact ⟨_, Or.inr rfl, rfl, rfl⟩
  · rename_i hcond
    rw [hasTag_iff] at hcond
    constructor
    · exact Or.inl
    · rintro (hc | ⟨-, hpub, hc, -⟩)
      · exact hc
      · exact absurd ⟨hpub, hc⟩ hcond

theorem reassign_eq_self (h : ¬ (di.state = .published ∧ potentials t di ≠ [] ∧
    Carries t di.id tag)) : reassign t tag di = t := by
  unfold reassign
  split
  · rename_i hcond
    rw [hasTag_iff] at hcond
    have hnil : potentials t di = [] := by
      by_contra hne
      exact h ⟨hcond.1, hne, hcond.2⟩
    rw [hnil]
    rfl
  · rfl

/-- Given away, a tag is on two published images until its image is deleted. -/
theorem not_tagsUnique_reassign (hdi : di ∈ db.dis) (hstate : di.state = .published)
    (hne : potentials db.toTables di ≠ []) (hc : Carries db.toTables di.id tag) :
    ¬ TagsUnique (reassign db.toTables tag di) := by
  intro hunique
  have hlast := List.getLast?_eq_some_getLast hne
  obtain ⟨hnew, hosf, hid, hpub⟩ := mem_potentials.mp (List.getLast_mem hne)
  apply hid
  refine hunique di.osfId tag _ di.id ?_ ?_ ?_ ?_
  · exact publishedIn_reassign.mpr ((publishedIn_iff hnew).mpr ⟨hosf, hpub⟩)
  · exact publishedIn_reassign.mpr ((publishedIn_iff hdi).mpr ⟨rfl, hstate⟩)
  · exact carries_reassign.mpr (Or.inr ⟨rfl, hstate, hc, _, hlast, rfl⟩)
  · exact carries_reassign.mpr (Or.inl hc)

theorem TagsUnique.of_reassign (h : TagsUnique (reassign t tag di)) : TagsUnique t := by
  intro osf tag' x y hx hy hcx hcy
  exact h osf tag' x y (publishedIn_reassign.mpr hx) (publishedIn_reassign.mpr hy)
    (carries_reassign.mpr (Or.inl hcx)) (carries_reassign.mpr (Or.inl hcy))

theorem valid_reassign (db : Database) (tag : String) (di : Di) :
    (reassign db.toTables tag di).Valid := by
  unfold reassign
  split
  · split
    · exact db.valid
    · rename_i newDi hlast
      apply valid_rows
      intro row hrow
      rcases List.mem_append.mp hrow with hrow | hrow
      · exact exists_di hrow
      · rw [List.mem_singleton.mp hrow]
        exact ⟨newDi, (mem_potentials.mp (List.mem_of_getLast? hlast)).1, rfl⟩
  · exact db.valid

def reassigned (db : Database) (tag : String) (di : Di) : Database :=
  ⟨reassign db.toTables tag di, valid_reassign db tag di⟩

theorem diNoHeadDefaultTag_ok (db : Database) (tag : String) (di : Di) :
    diNoHeadDefaultTag tag di db = .ok (reassigned db tag di) := by
  have hcommit : diNoHeadDefaultTag tag di db = commit (reassign db.toTables tag di) := by
    unfold diNoHeadDefaultTag reassign
    split
    · cases (potentials db.toTables di).getLast? with
      | none => exact (commit_ok db.valid).symm
      | some newDi => rfl
    · exact (commit_ok db.valid).symm
  rw [hcommit]
  exact commit_ok (valid_reassign db tag di)

/-- The images after a whole deletion. -/
def deletedDb (db : Database) (di : Di) : Database :=
  ⟨deleteDi (reassigned (reassigned db "default" di) "head" di).toTables di,
    valid_deleteDi (reassigned (reassigned db "default" di) "head" di).valid di⟩

theorem publishedIn_deletedDb {osf : OsfId} {x : DiId} :
    PublishedIn (deletedDb db di).toTables osf x ↔ PublishedIn db.toTables osf x ∧ x ≠ di.id := by
  simp only [PublishedIn, deletedDb, deleteDi, reassigned, reassign_dis, List.mem_filter,
    decide_eq_true_eq]
  grind

theorem carries_deleteDi {x : DiId} :
    Carries (deleteDi t di) x tag ↔ Carries t x tag ∧ x ≠ di.id := by
  simp only [Carries, deleteDi, List.mem_filter, decide_eq_true_eq]
  grind

/-- The tags after a deletion: head and default have a new image when it had them. -/
theorem carries_deletedDb {x : DiId} (hx : x ≠ di.id) :
    Carries (deletedDb db di).toTables x tag ↔ Carries db.toTables x tag ∨
      ((tag = "default" ∨ tag = "head") ∧ di.state = .published ∧ Carries db.toTables di.id tag ∧
        ∃ newDi, (potentials db.toTables di).getLast? = some newDi ∧ x = newDi.id) := by
  have hpotentials : potentials (reassign db.toTables "default" di) di =
      potentials db.toTables di := by
    simp only [potentials, reassign_dis]
  have hself : Carries (reassign db.toTables "default" di) di.id "head" ↔
      Carries db.toTables di.id "head" := by
    rw [carries_reassign]
    simp
  simp only [deletedDb, carries_deleteDi, reassigned, carries_reassign, hpotentials]
  rw [carries_reassign] at hself
  grind

theorem tagsOk_deletedDb {w : World} {a : Action} (hok : TagsOk w) (hdi : di ∈ w.db.dis)
    (hafter : w.db.after a = deletedDb w.db di) : TagsOk (w.after a) := by
  have hworld : (w.after a).db = deletedDb w.db di := hafter
  have hhistory : (w.after a).headPublished = w.headPublished := by
    rw [World.after, headPublications_eq_nil, List.nil_append]
    rw [hafter]
    exact fun osf x hx => (publishedIn_deletedDb.mp hx).1
  rw [tagsOk_iff] at hok ⊢
  rw [hworld, hhistory]
  -- A tag that was given away had only the deleted image.
  have hgiven : ∀ {osf tag x y newDi}, di.state = .published → Carries w.db.toTables di.id tag →
      (potentials w.db.toTables di).getLast? = some newDi → x = newDi.id →
      PublishedIn w.db.toTables osf x → PublishedIn w.db.toTables osf y → y ≠ di.id →
      ¬ Carries w.db.toTables y tag := by
    rintro osf tag x y newDi hstate hc hlast rfl hx hy hne hcy
    obtain ⟨hnew, hosf, -, -⟩ := mem_potentials.mp (List.mem_of_getLast? hlast)
    rw [publishedIn_iff hnew] at hx
    rw [← hx.1, hosf] at hy
    exact hne (hok.1 di.osfId tag y di.id hy ((publishedIn_iff hdi).mpr ⟨rfl, hstate⟩) hcy hc)
  constructor
  · intro osf tag x y hx hy hcx hcy
    obtain ⟨hx, hnx⟩ := publishedIn_deletedDb.mp hx
    obtain ⟨hy, hny⟩ := publishedIn_deletedDb.mp hy
    rcases (carries_deletedDb hnx).mp hcx with hcx | ⟨-, hstate, hc, newDi, hlast, hnew⟩
    · rcases (carries_deletedDb hny).mp hcy with hcy | ⟨-, hstate, hc, newDi, hlast, hnew⟩
      · exact hok.1 osf tag x y hx hy hcx hcy
      · exact absurd hcx (hgiven hstate hc hlast hnew hy hx hnx)
    · rcases (carries_deletedDb hny).mp hcy with hcy | ⟨-, -, -, newDi', hlast', hnew'⟩
      · exact absurd hcy (hgiven hstate hc hlast hnew hx hy hny)
      · rw [hlast, Option.some.injEq] at hlast'
        rw [hnew, hnew', hlast']
  · rintro osf hosf ⟨x, hx⟩
    obtain ⟨hx, hnx⟩ := publishedIn_deletedDb.mp hx
    obtain ⟨p, hp, hcp⟩ := hok.2 osf hosf ⟨x, hx⟩
    by_cases hnp : p = di.id
    · subst hnp
      obtain ⟨rfl, hstate⟩ := (publishedIn_iff hdi).mp hp
      obtain ⟨d, hd, rfl, hdosf, hdstate⟩ := hx
      have hne : potentials w.db.toTables di ≠ [] :=
        List.ne_nil_of_mem (mem_potentials.mpr ⟨hd, hdosf, hnx, hdstate⟩)
      obtain ⟨hnew, hnewOsf, hnewId, hnewState⟩ := mem_potentials.mp (List.getLast_mem hne)
      refine ⟨_, publishedIn_deletedDb.mpr
        ⟨(publishedIn_iff hnew).mpr ⟨hnewOsf, hnewState⟩, hnewId⟩, ?_⟩
      exact (carries_deletedDb hnewId).mpr
        (Or.inr ⟨Or.inr rfl, hstate, hcp, _, List.getLast?_eq_some_getLast hne, rfl⟩)
    · exact ⟨p, publishedIn_deletedDb.mpr ⟨hp, hnp⟩, (carries_deletedDb hnp).mpr (Or.inl hcp)⟩

/-- The tag is given away by the loop. -/
def GivesAway (t : Tables) (di : Di) (tag : String) : Prop :=
  di.state = .published ∧ potentials t di ≠ [] ∧ Carries t di.id tag

theorem tagsOk_reassigned {w : World} {a : Action} (hok : TagsOk w) (hdi : di ∈ w.db.dis)
    (hafter : w.db.after a = reassigned w.db "default" di) :
    TagsOk (w.after a) ↔ ¬ GivesAway w.db.toTables di "default" := by
  constructor
  · rintro ⟨hunique, -⟩ ⟨hstate, hne, hc⟩
    rw [show (w.after a).db = _ from hafter] at hunique
    exact not_tagsUnique_reassign hdi hstate hne hc hunique
  · intro hnot
    exact hok.of_same ((congrArg Database.toTables hafter).trans (reassign_eq_self hnot))

theorem tagsOk_reassigned_both {w : World} {a : Action} (hok : TagsOk w) (hdi : di ∈ w.db.dis)
    (hafter : w.db.after a = reassigned (reassigned w.db "default" di) "head" di) :
    TagsOk (w.after a) ↔ ¬ GivesAway w.db.toTables di "default" ∧
      ¬ GivesAway w.db.toTables di "head" := by
  have htables : (w.db.after a).toTables =
      reassign (reassign w.db.toTables "default" di) "head" di :=
    congrArg Database.toTables hafter
  constructor
  · rintro ⟨hunique, -⟩
    rw [show (w.after a).db.toTables = _ from htables] at hunique
    have hdefault : ¬ GivesAway w.db.toTables di "default" := fun ⟨hstate, hne, hc⟩ =>
      not_tagsUnique_reassign hdi hstate hne hc hunique.of_reassign
    refine ⟨hdefault, fun ⟨hstate, hne, hc⟩ => ?_⟩
    rw [reassign_eq_self hdefault] at hunique
    exact not_tagsUnique_reassign hdi hstate hne hc hunique
  · rintro ⟨hdefault, hhead⟩
    rw [reassign_eq_self hdefault, reassign_eq_self hhead] at htables
    exact hok.of_same htables

theorem tagsOk_diDelete_iff {w : World} (hok : TagsOk w) (id : DiId) (n : ℕ) :
    TagsOk (w.after (.call (.diDelete id) n)) ↔ StepOk w (.call (.diDelete id) n) := by
  by_cases hpasses : ∃ di ∈ w.db.dis, di.id = id ∧ diNoVmRuntimes w.db.toTables di = true ∧
      diNoDependantVms w.db.toTables di = true
  · obtain ⟨di, hdi, rfl, hruntimes, hdependant⟩ := hpasses
    have hselect : ∀ db : Database, db.dis = w.db.dis → select db.toTables di.id = .ok di :=
      fun db hdb => select_ok (hdb ▸ hdi) rfl
    have hfirst : ∀ k, runParts (k + 1) (diDelete di.id) w.db =
        runParts k (diDelete di.id).tail (reassigned w.db "default" di) := by
      intro k
      simp only [diDelete, runParts, hselect w.db rfl, bind, Except.bind, hruntimes, hdependant,
        reduceCtorEq, if_false, diNoHeadDefaultTag_ok, List.tail_cons]
    have hsecond : ∀ k, runParts (k + 2) (diDelete di.id) w.db =
        runParts k (diDelete di.id).tail.tail
          (reassigned (reassigned w.db "default" di) "head" di) := by
      intro k
      rw [hfirst]
      simp only [diDelete, runParts, hselect (reassigned w.db "default" di) reassign_dis, bind,
        Except.bind, diNoHeadDefaultTag_ok, List.tail_cons]
    have hstep : StepOk w (.call (.diDelete di.id) n) ↔ (n < 3 →
        (1 ≤ n → ¬ GivesAway w.db.toTables di "default") ∧
        (n = 2 → ¬ GivesAway w.db.toTables di "head")) := by
      constructor
      · intro h hn
        exact ⟨fun h1 ⟨hstate, hne, hc⟩ =>
            (h hn di hdi rfl hstate hruntimes hdependant hne).1 h1 hc,
          fun h2 ⟨hstate, hne, hc⟩ =>
            (h hn di hdi rfl hstate hruntimes hdependant hne).2 h2 hc⟩
      · intro h hn d hd hid
        rw [di_ext hd hdi hid]
        intro hstate _ _ hne
        exact ⟨fun h1 hc => (h hn).1 h1 ⟨hstate, hne, hc⟩,
          fun h2 hc => (h hn).2 h2 ⟨hstate, hne, hc⟩⟩
    rw [hstep]
    match n with
    | 0 => exact iff_of_true (hok.of_same rfl) fun _ => ⟨by simp, by simp⟩
    | 1 =>
      have hafter : w.db.after (.call (.diDelete di.id) 1) = reassigned w.db "default" di :=
        hfirst 0
      rw [tagsOk_reassigned hok hdi hafter]
      simp
    | 2 =>
      have hafter : w.db.after (.call (.diDelete di.id) 2) =
          reassigned (reassigned w.db "default" di) "head" di := hsecond 0
      rw [tagsOk_reassigned_both hok hdi hafter]
      simp
    | k + 3 =>
      have hafter : w.db.after (.call (.diDelete di.id) (k + 3)) = deletedDb w.db di := by
        refine (hsecond (k + 1)).trans (runParts_single (Nat.succ_ne_zero k) ?_)
        simp only [hselect (reassigned (reassigned w.db "default" di) "head" di)
          (reassign_dis.trans reassign_dis), bind, Except.bind]
        exact commit_ok (deletedDb w.db di).valid
      exact iff_of_true (tagsOk_deletedDb hok hdi hafter) fun hn => absurd hn (by omega)
  · apply iff_of_true
    · apply hok.of_same
      apply congrArg Database.toTables
      show runParts n (diDelete id) w.db = w.db
      by_cases hfind : ∃ di ∈ w.db.dis, di.id = id
      · obtain ⟨di, hdi, rfl⟩ := hfind
        by_cases hruntimes : diNoVmRuntimes w.db.toTables di = true
        · have hdependant : diNoDependantVms w.db.toTables di = false := by
            by_contra hne
            exact hpasses ⟨di, hdi, rfl, hruntimes, by simpa using hne⟩
          apply runParts_error (.exception 7120)
          simp only [select_ok hdi rfl, bind, Except.bind, hruntimes, hdependant, reduceCtorEq,
            if_false, if_true]
        · apply runParts_error (.exception 7320)
          simp only [select_ok hdi rfl, bind, Except.bind, Bool.not_eq_true _ ▸ hruntimes, if_true]
      · exact runParts_not_found hfind _ _
    · exact fun _ di hdi hid _ hruntimes hdependant _ =>
        absurd ⟨di, hdi, hid, hruntimes, hdependant⟩ hpasses

end Deletion

section Runs

theorem tagsOk_after_iff {w : World} (hok : TagsOk w) (a : Action) :
    TagsOk (w.after a) ↔ StepOk w a := by
  match a with
  | .call (.diCreate c) n => exact iff_of_true (tagsOk_diCreate hok c n) trivial
  | .call (.tagsCreate id names) n => exact tagsOk_tagsCreate_iff hok id names n
  | .call (.tagsDelete id names) n => exact iff_of_true (tagsOk_tagsDelete hok id names n) trivial
  | .call (.tagsConsolidate id) n => exact tagsOk_tagsConsolidate_iff hok id n
  | .call (.diPublish id) n => exact tagsOk_diPublish_iff hok id n
  | .call (.diDelete id) n => exact tagsOk_diDelete_iff hok id n
  | .prepare id state => exact iff_of_true (tagsOk_prepare hok id state) trivial
  | .vms vms => exact iff_of_true (tagsOk_vms hok vms) trivial

theorem tagsOk_init {w : World} (h : diskImages.init w) : TagsOk w := by
  obtain ⟨-, htags, hhistory⟩ := h
  constructor
  · rintro osf tag x y - - ⟨row, hrow, -⟩
    rw [htags] at hrow
    cases hrow
  · intro osf hosf
    rw [hhistory] at hosf
    cases hosf

/-- Two rows of a tag on a published image; the next image takes one of them. -/
def takenInPart : World :=
  [Action.call (.diCreate (creation 1 "1.0" [some "stable", some "stable"])) 3, .prepare 1 .ready,
    .call (.diPublish 1) 2, .call (.diCreate (creation 2 "2.0" [some "stable"])) 3,
    .prepare 2 .ready, .call (.diPublish 2) 2].foldl World.after emptyWorld

end Runs

end Qvd.TagUniqueness
