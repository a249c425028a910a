import Mathlib.Data.List.Nodup
import Qvd.DiskImages

/-!
What the operations on the tags do to the rows: which rows are added, which stay, and how
many rows of a tag are left on the other published images of a flavour.
-/
namespace Qvd.TagRows

open DiskImages

section EraseP

variable {α : Type*} {p q : α → Bool}

theorem countP_eraseP_self (l : List α) : (l.eraseP p).countP p = l.countP p - 1 := by
  induction l with
  | nil => rfl
  | cons a l ih =>
    by_cases ha : p a = true
    · rw [List.eraseP_cons_of_pos ha, List.countP_cons_of_pos ha, Nat.add_sub_cancel]
    · rw [List.eraseP_cons_of_neg ha, List.countP_cons_of_neg ha, List.countP_cons_of_neg ha, ih]

theorem countP_eraseP_of_disjoint (h : ∀ a, p a = true → ¬ q a = true) (l : List α) :
    (l.eraseP p).countP q = l.countP q := by
  induction l with
  | nil => rfl
  | cons a l ih =>
    by_cases ha : p a = true
    · rw [List.eraseP_cons_of_pos ha, List.countP_cons_of_neg (h a ha)]
    · rw [List.eraseP_cons_of_neg ha, List.countP_cons, List.countP_cons, ih]

end EraseP

section Predicates

variable (t : Tables)

/-- A published image of the flavour. -/
def PublishedIn (osf : OsfId) (id : DiId) : Prop :=
  ∃ di ∈ t.dis, di.id = id ∧ di.osfId = osf ∧ di.state = .published

def Carries (id : DiId) (tag : String) : Prop :=
  ∃ row ∈ t.diTags, row.diId = id ∧ row.tag = tag

/-- The number of rows in which an image carries a tag. -/
def copies (di : Di) (tag : String) : ℕ :=
  t.diTags.countP (fun row => row.diId = di.id && row.tag = tag)

/-- The image carries the tag as a fixed one. -/
def fixedTag (di : Di) (tag : String) : Bool :=
  t.diTags.any (fun row => row.diId = di.id && row.tag = tag && row.fixed)

/-- A row of the tag on another published image of the flavour. -/
def rival (di : Di) (tag : String) (row : DiTag) : Bool :=
  row.tag = tag && onOther t di row && onPublished t row

def rivals (di : Di) (tag : String) : ℕ :=
  t.diTags.countP (rival t di tag)

end Predicates

section Tables

variable {t : Tables} {db : Database} {di : Di} {id : DiId} {tag : String}

theorem hasTag_iff : hasTag t di tag = true ↔ Carries t di.id tag := by
  simp [hasTag, Carries, List.any_eq_true]

theorem di_ext {d : Di} (hd : d ∈ db.dis) (hdi : di ∈ db.dis) (h : d.id = di.id) : d = di :=
  List.inj_on_of_nodup_map db.valid.dis_ids hd hdi h

theorem exists_di {row : DiTag} (h : row ∈ db.diTags) : ∃ d ∈ db.dis, d.id = row.diId := by
  simpa using db.valid.diTags_dis row h

theorem find_ok {failure : Failure} : find db.toTables id failure = .ok di ↔
    di ∈ db.dis ∧ di.id = id := by
  unfold find
  cases hfind : db.dis.find? (fun d => d.id = id) with
  | none =>
    rw [List.find?_eq_none] at hfind
    simp only [decide_eq_true_eq] at hfind
    simp only [reduceCtorEq, false_iff]
    rintro ⟨hdi, hid⟩
    exact hfind di hdi hid
  | some d =>
    have hd := List.mem_of_find?_eq_some hfind
    have hid := List.find?_some hfind
    simp only [decide_eq_true_eq] at hid
    simp only [Except.ok.injEq]
    constructor
    · rintro rfl
      exact ⟨hd, hid⟩
    · rintro ⟨hdi, hid'⟩
      exact di_ext hd hdi (hid.trans hid'.symm)

theorem publishedIn_iff (hdi : di ∈ db.dis) {osf : OsfId} :
    PublishedIn db.toTables osf di.id ↔ di.osfId = osf ∧ di.state = .published := by
  constructor
  · rintro ⟨d, hd, hid, hosf, hstate⟩
    obtain rfl := di_ext hd hdi hid
    exact ⟨hosf, hstate⟩
  · rintro ⟨hosf, hstate⟩
    exact ⟨di, hdi, rfl, hosf, hstate⟩

/-- An image is published in one flavour only. -/
theorem PublishedIn.osf_eq {osf osf' : OsfId} (h : PublishedIn db.toTables osf id)
    (h' : PublishedIn db.toTables osf' id) : osf = osf' := by
  obtain ⟨d, hd, hid, hosf, -⟩ := h
  obtain ⟨d', hd', hid', hosf', -⟩ := h'
  obtain rfl := di_ext hd hd' (hid.trans hid'.symm)
  exact hosf.symm.trans hosf'

theorem rival_iff {row : DiTag} : rival db.toTables di tag row = true ↔
    row.tag = tag ∧ row.diId ≠ di.id ∧ PublishedIn db.toTables di.osfId row.diId := by
  simp only [rival, onOther, onPublished, inOsf, Bool.and_eq_true, decide_eq_true_eq,
    List.any_eq_true, bne_iff_ne]
  constructor
  · rintro ⟨⟨htag, ⟨d, hd, hid, hosf⟩, hne⟩, e, he, hid', hstate⟩
    obtain rfl := di_ext hd he (hid.trans hid'.symm)
    exact ⟨htag, hne, d, hd, hid, hosf, hstate⟩
  · rintro ⟨htag, hne, d, hd, hid, hosf, hstate⟩
    exact ⟨⟨htag, ⟨d, hd, hid, hosf⟩, hne⟩, d, hd, hid, hstate⟩

theorem rivals_eq_zero_iff : rivals db.toTables di tag = 0 ↔
    ∀ id, PublishedIn db.toTables di.osfId id → Carries db.toTables id tag → id = di.id := by
  simp only [rivals, List.countP_eq_zero, rival_iff, not_and]
  constructor
  · rintro h id hid ⟨row, hrow, rfl, htag⟩
    by_contra hne
    exact h row hrow htag hne hid
  · intro h row hrow htag hne hid
    exact hne (h row.diId hid ⟨row, hrow, rfl, htag⟩)

end Tables

section Consolidation

variable {t : Tables} {di : Di} {tag : String}

theorem consolidateTag_subset (rows : List DiTag) (r : DiTag) :
    consolidateTag t di rows r ⊆ rows := by
  unfold consolidateTag
  split
  · exact fun row hrow => List.mem_of_mem_eraseP (List.mem_of_mem_filter hrow)
  · exact List.eraseP_subset

/-- The rows of the image and of other flavours stay, and so do those of other tags. -/
theorem mem_consolidateTag {rows : List DiTag} {r row : DiTag} (hrow : row ∈ rows)
    (h : row.tag = r.tag → onOther t di row = false) : row ∈ consolidateTag t di rows r := by
  have hrest : row ∈ rows.eraseP
      (fun row => row.tag = r.tag && onOther t di row && onPublished t row) := by
    rw [List.mem_eraseP_of_neg]
    · exact hrow
    · simp only [Bool.and_eq_true, decide_eq_true_eq]
      rintro ⟨⟨htag, hother⟩, -⟩
      rw [h htag] at hother
      cases hother
  unfold consolidateTag
  dsimp only
  split
  · apply List.mem_filter.mpr ⟨hrest, ?_⟩
    by_cases htag : row.tag = r.tag
    · simp [h htag]
    · simp [htag]
  · exact hrest

theorem countP_consolidateTag (rows : List DiTag) (r : DiTag) :
    (consolidateTag t di rows r).countP (rival t di tag) =
      if r.tag = tag then
        if r.fixed then 0 else rows.countP (rival t di tag) - 1
      else rows.countP (rival t di tag) := by
  unfold consolidateTag
  dsimp only
  by_cases htag : r.tag = tag
  · subst htag
    rw [if_pos rfl]
    split
    · rw [List.countP_eq_zero]
      intro row hrow
      have hother := (List.mem_filter.mp hrow).2
      unfold rival
      grind
    · exact countP_eraseP_self rows
  · have hdisjoint : ∀ row, (decide (row.tag = r.tag) && onOther t di row &&
        onPublished t row) = true → ¬ rival t di tag row = true := by
      unfold rival
      grind
    rw [if_neg htag]
    split
    · rw [List.countP_filter, ← countP_eraseP_of_disjoint hdisjoint rows]
      apply List.countP_congr
      intro row _
      unfold rival
      grind
    · exact countP_eraseP_of_disjoint hdisjoint rows

theorem foldl_consolidateTag_subset (l rows : List DiTag) :
    l.foldl (consolidateTag t di) rows ⊆ rows := by
  induction l generalizing rows with
  | nil => exact fun _ h => h
  | cons r l ih => exact fun row hrow => consolidateTag_subset rows r (ih _ hrow)

theorem mem_foldl_consolidateTag {l rows : List DiTag} {row : DiTag} (hrow : row ∈ rows)
    (h : ∀ r ∈ l, row.tag = r.tag → onOther t di row = false) :
    row ∈ l.foldl (consolidateTag t di) rows := by
  induction l generalizing rows with
  | nil => exact hrow
  | cons r l ih =>
    rw [List.forall_mem_cons] at h
    exact ih (mem_consolidateTag hrow h.1) h.2

/-- The loop takes one row for each row of the tag it meets, or all of them. -/
theorem countP_foldl_consolidateTag (l rows : List DiTag) :
    (l.foldl (consolidateTag t di) rows).countP (rival t di tag) =
      if l.any (fun r => r.tag = tag && r.fixed) then 0
      else rows.countP (rival t di tag) - l.countP (fun r => r.tag = tag) := by
  induction l generalizing rows with
  | nil => simp
  | cons r l ih =>
    rw [List.foldl_cons, ih, countP_consolidateTag, List.any_cons, List.countP_cons]
    by_cases htag : r.tag = tag
    · by_cases hfixed : r.fixed = true
      · simp [htag, hfixed]
      · simp only [htag, hfixed, if_true, decide_true, Bool.and_false, Bool.false_or,
          Bool.false_eq_true, if_false]
        split
        · rfl
        · omega
    · simp [htag]

theorem mem_tags {r : DiTag} : r ∈ tags t di ↔ r ∈ t.diTags ∧ r.diId = di.id := by
  simp [tags, List.mem_insertionSort]

theorem countP_tags : (tags t di).countP (fun r => r.tag = tag) = copies t di tag := by
  unfold tags copies
  rw [(List.perm_insertionSort _ _).countP_eq, List.countP_filter]
  apply List.countP_congr
  intro row _
  simp [and_comm]

theorem any_tags : (tags t di).any (fun r => r.tag = tag && r.fixed) = fixedTag t di tag := by
  rw [Bool.eq_iff_iff]
  simp only [List.any_eq_true, mem_tags, fixedTag, Bool.and_eq_true, decide_eq_true_eq]
  grind

@[simp]
theorem tagsConsolidate_dis : (tagsConsolidate t di).dis = t.dis := rfl

@[simp]
theorem tagsConsolidate_osfs : (tagsConsolidate t di).osfs = t.osfs := rfl

theorem rivals_tagsConsolidate : rivals (tagsConsolidate t di) di tag =
    if fixedTag t di tag then 0 else rivals t di tag - copies t di tag := by
  rw [← any_tags, ← countP_tags]
  exact countP_foldl_consolidateTag (tags t di) t.diTags

theorem Carries.of_tagsConsolidate {id : DiId} (h : Carries (tagsConsolidate t di) id tag) :
    Carries t id tag := by
  obtain ⟨row, hrow, hid, htag⟩ := h
  exact ⟨row, foldl_consolidateTag_subset _ _ hrow, hid, htag⟩

/-- The image keeps its tags, and the others keep those it does not carry; other flavours
keep all of theirs. -/
theorem carries_tagsConsolidate {id : DiId}
    (h : id = di.id ∨ ¬ Carries t di.id tag ∨ ∀ d ∈ t.dis, d.id = id → d.osfId ≠ di.osfId) :
    Carries (tagsConsolidate t di) id tag ↔ Carries t id tag := by
  refine ⟨Carries.of_tagsConsolidate, ?_⟩
  rintro ⟨row, hrow, rfl, rfl⟩
  refine ⟨row, mem_foldl_consolidateTag hrow ?_, rfl, rfl⟩
  intro r hr htag
  rcases h with hid | hnot | hosf
  · simp [onOther, hid]
  · obtain ⟨hr, hid⟩ := mem_tags.mp hr
    exact absurd ⟨r, hr, hid, htag.symm⟩ hnot
  · simp only [onOther, inOsf, Bool.and_eq_false_imp, List.any_eq_true, Bool.and_eq_true,
      decide_eq_true_eq]
    rintro ⟨d, hd, hid, hsame⟩
    exact absurd hsame (hosf d hd hid)

end Consolidation

section Lists

variable {t : Tables} {di : Di}

/-- The names that are added: those that are defined and not empty. -/
def given (names : List (Option String)) : List String :=
  names.filterMap (fun name => name.filter (fun name => name ≠ ""))

/-- A name of the list is fixed in the flavour. -/
def Refused (t : Tables) (di : Di) (names : List (Option String)) : Prop :=
  ∃ name ∈ given names, ∃ row ∈ t.diTags,
    row.tag = name ∧ inOsf t di.osfId row = true ∧ row.fixed = true

theorem addTags_ok (t : Tables) (di : Di) (names : List String) (rows : List DiTag)
    (h : ∀ name ∈ names, ∀ row ∈ rows, row.tag = name → inOsf t di.osfId row = true →
      row.fixed = false) :
    addTags t di names rows =
      .ok (rows ++ names.map (fun name => DiTag.mk di.id name false)) := by
  induction names generalizing rows with
  | nil => simp [addTags]
  | cons name names ih =>
    rw [List.forall_mem_cons] at h
    have hany : ¬ (rows.any fun row => decide (row.tag = name) && inOsf t di.osfId row &&
        row.fixed) = true := by
      simp only [List.any_eq_true, Bool.and_eq_true, decide_eq_true_eq]
      rintro ⟨row, hrow, ⟨htag, hosf⟩, hfixed⟩
      rw [h.1 row hrow htag hosf] at hfixed
      cases hfixed
    rw [addTags, if_neg hany, ih, List.map_cons, List.append_assoc, List.singleton_append]
    intro name' hname' row hrow htag hosf
    rcases List.mem_append.mp hrow with hrow | hrow
    · exact h.2 name' hname' row hrow htag hosf
    · rw [List.mem_singleton.mp hrow]

theorem addTags_error {names : List String} {rows : List DiTag}
    (h : ∃ name ∈ names, ∃ row ∈ rows, row.tag = name ∧ inOsf t di.osfId row = true ∧
      row.fixed = true) : ∃ failure, addTags t di names rows = .error failure := by
  induction names generalizing rows with
  | nil =>
    obtain ⟨name, hname, -⟩ := h
    cases hname
  | cons name names ih =>
    rw [addTags]
    split
    · exact ⟨_, rfl⟩
    · rename_i hany
      apply ih
      obtain ⟨name', hname', row, hrow, htag, hosf, hfixed⟩ := h
      refine ⟨name', ?_, row, List.mem_append_left _ hrow, htag, hosf, hfixed⟩
      rcases List.mem_cons.mp hname' with rfl | hname'
      · exact absurd (List.any_eq_true.mpr ⟨row, hrow, by simp [htag, hosf, hfixed]⟩) hany
      · exact hname'

/-- The tables with a row for each name. -/
def withTags (t : Tables) (di : Di) (names : List (Option String)) : Tables :=
  { t with diTags := t.diTags ++ (given names).map (fun name => DiTag.mk di.id name false) }

theorem tagsCreate_ok {names : List (Option String)} (h : ¬ Refused t di names) :
    tagsCreate t names di =
      .ok (if di.state = .published then tagsConsolidate (withTags t di names) di
        else withTags t di names) := by
  have hadd := addTags_ok t di (given names) t.diTags ?_
  · show (addTags t di (given names) t.diTags).bind _ = _
    rw [hadd]
    rfl
  · intro name hname row hrow htag hosf
    by_contra hfixed
    exact h ⟨name, hname, row, hrow, htag, hosf, by simpa using hfixed⟩

theorem tagsCreate_error {names : List (Option String)} (h : Refused t di names) :
    ∃ failure, tagsCreate t names di = .error failure := by
  obtain ⟨failure, hadd⟩ := addTags_error h
  refine ⟨failure, ?_⟩
  show (addTags t di (given names) t.diTags).bind _ = _
  rw [hadd]
  rfl

theorem carries_withTags {names : List (Option String)} {id : DiId} {tag : String} :
    Carries (withTags t di names) id tag ↔
      Carries t id tag ∨ (id = di.id ∧ tag ∈ given names) := by
  simp only [Carries, withTags, List.mem_append, List.mem_map]
  constructor
  · rintro ⟨row, hrow | ⟨name, hname, rfl⟩, rfl, rfl⟩
    · exact Or.inl ⟨row, hrow, rfl, rfl⟩
    · exact Or.inr ⟨rfl, hname⟩
  · rintro (⟨row, hrow, hid, htag⟩ | ⟨rfl, hname⟩)
    · exact ⟨row, Or.inl hrow, hid, htag⟩
    · exact ⟨_, Or.inr ⟨tag, hname, rfl⟩, rfl, rfl⟩

theorem fixedTag_withTags {names : List (Option String)} {tag : String} :
    fixedTag (withTags t di names) di tag = fixedTag t di tag := by
  simp [fixedTag, withTags, List.any_append, List.any_map, Function.comp_def]

theorem copies_withTags {names : List (Option String)} {tag : String} :
    copies (withTags t di names) di tag = copies t di tag + (given names).count tag := by
  simp [copies, withTags, List.countP_append, List.countP_map, Function.comp_def, List.count,
    beq_eq_decide]

theorem rivals_withTags {names : List (Option String)} {tag : String} :
    rivals (withTags t di names) di tag = rivals t di tag := by
  have hnew : ((given names).map (fun name => DiTag.mk di.id name false)).countP
      (rival t di tag) = 0 := by
    rw [List.countP_eq_zero]
    intro row hrow
    obtain ⟨name, -, rfl⟩ := List.mem_map.mp hrow
    simp [rival, onOther]
  show (t.diTags ++ _).countP (rival t di tag) = t.diTags.countP (rival t di tag)
  rw [List.countP_append, hnew, Nat.add_zero]

theorem tagsDelete_subset {names : List (Option String)} {rows rows' : List DiTag}
    (h : tagsDelete di names rows = .ok rows') : rows' ⊆ rows := by
  induction names generalizing rows with
  | nil =>
    rw [tagsDelete, Except.ok.injEq] at h
    exact h ▸ fun _ hrow => hrow
  | cons name names ih =>
    rw [tagsDelete] at h
    split at h
    · exact ih h
    · split at h
      · cases h
      · exact fun row hrow => List.eraseP_subset (ih h hrow)

/-- No row of the tag head is deleted. -/
theorem mem_of_tagsDelete {names : List (Option String)} {rows rows' : List DiTag} {row : DiTag}
    (h : tagsDelete di names rows = .ok rows') (hrow : row ∈ rows) (htag : row.tag = "head") :
    row ∈ rows' := by
  induction names generalizing rows with
  | nil =>
    rw [tagsDelete, Except.ok.injEq] at h
    exact h ▸ hrow
  | cons name names ih =>
    rw [tagsDelete] at h
    split at h
    · exact ih h hrow
    · rename_i r hfind
      split at h
      · cases h
      · rename_i hkeep
        apply ih h
        rw [List.mem_eraseP_of_neg]
        · exact hrow
        · have hr := List.find?_some hfind
          grind

end Lists

end Qvd.TagRows
