import Qvd.TagRows

/-!
The query for the image of a machine that is started, against the relation of the machine
to its image, on every content of the tables that the calls produce.
-/
namespace Qvd.TagLookups

open Runs DiskImages TagRows

section Keys

variable {α β κ : Type*} {key : α → κ} {l : List α}

/-- A join on a unique key has the rows of one element. -/
theorem flatMap_of_key (h : (l.map key).Nodup) {a : α} (ha : a ∈ l) {f : α → List β}
    (hf : ∀ b ∈ l, key b ≠ key a → f b = []) : l.flatMap f = f a := by
  induction l with
  | nil => cases ha
  | cons b l ih =>
    rw [List.map_cons, List.nodup_cons] at h
    rw [List.flatMap_cons]
    by_cases hab : key b = key a
    · have hb : b = a := by
        rcases List.mem_cons.mp ha with rfl | ha
        · rfl
        · exact absurd (List.mem_map.mpr ⟨a, ha, hab.symm⟩) h.1
      subst hb
      have hrest : l.flatMap f = [] := by
        rw [List.flatMap_eq_nil_iff]
        intro c hc
        apply hf c (List.mem_cons_of_mem b hc)
        intro hkey
        exact h.1 (List.mem_map.mpr ⟨c, hc, hkey⟩)
      rw [hrest, List.append_nil]
    · have hal : a ∈ l := by
        rcases List.mem_cons.mp ha with rfl | ha
        · exact absurd rfl hab
        · exact ha
      rw [hf b (List.mem_cons_self ..) hab, List.nil_append]
      exact ih h.2 hal (fun c hc => hf c (List.mem_cons_of_mem b hc))

theorem filter_of_key (h : (l.map key).Nodup) {a : α} (ha : a ∈ l) {p : α → Bool}
    (hp : ∀ b ∈ l, p b = true → key b = key a) : l.filter p = if p a then [a] else [] := by
  have hflat : l.filter p = l.flatMap (fun b => if p b then [b] else []) := by
    rw [← List.filterMap_eq_filter, List.filterMap_eq_flatMap_toList]
    apply List.flatMap_congr
    intro b _
    by_cases hb : p b <;> simp [Option.guard, hb]
  rw [hflat, flatMap_of_key h ha]
  intro b hb hne
  exact if_neg fun hpb => hne (hp b hb hpb)

/-- A join in which each element has at most one row. -/
theorem length_flatMap_eq_countP {p : α → Bool} {f : α → List β}
    (h : ∀ a ∈ l, (f a).length = if p a then 1 else 0) : (l.flatMap f).length = l.countP p := by
  induction l with
  | nil => rfl
  | cons a l ih =>
    have ha := h a (List.mem_cons_self ..)
    have hl := ih (fun b hb => h b (List.mem_cons_of_mem a hb))
    rw [List.flatMap_cons, List.length_append, List.countP_cons, ha, hl, Nat.add_comm]

/-- A list without duplicates that has one element. -/
theorem length_eq_one_iff_of_nodup (h : l.Nodup) : l.length = 1 ↔ ∃ a ∈ l, ∀ b ∈ l, b = a := by
  constructor
  · intro hone
    obtain ⟨a, rfl⟩ := List.length_eq_one_iff.mp hone
    exact ⟨a, by simp, by simp⟩
  · rintro ⟨a, ha, hall⟩
    match l, h with
    | [_], _ => rfl
    | b :: c :: l, h =>
      have hb := hall b (by simp)
      have hc := hall c (by simp)
      rw [hb, hc] at h
      simp at h

end Keys

section Conditions

variable (t : Tables) (vm : Vm)

/-- A published image of the flavour of the machine that carries its tag. -/
def Published (di : Di) : Prop :=
  di ∈ t.dis ∧ di.osfId = vm.osfId ∧ di.state = .published ∧ Carries t di.id vm.diTag

/-- An image of the flavour of the machine that is not blocked and carries its tag. -/
def Unblocked (di : Di) : Prop :=
  di ∈ t.dis ∧ di.osfId = vm.osfId ∧ di.blocked = false ∧ Carries t di.id vm.diTag

def OnlyPublished (di : Di) : Prop :=
  Published t vm di ∧ ∀ d, Published t vm d → d = di

def OnlyUnblocked (di : Di) : Prop :=
  Unblocked t vm di ∧ ∀ d, Unblocked t vm d → d = di

/-- The query has one row exactly if the relation has, and they name the same published
image. -/
def LookupsAgree : Prop :=
  ((searchDi t vm).length = 1 ↔ (vmDi t vm).length = 1) ∧
    ∀ row di, searchDi t vm = [row] → vmDi t vm = [di] → row.id = di.id ∧ di.state = .published

/-- The only published image with the tag is not blocked, carries the tag in one row, and
no image that is neither published nor blocked carries it. The only image with the tag that
is not blocked is published if it carries the tag in one row, and no published image that
is blocked carries it. -/
def LookupOk : Prop :=
  (∀ di, OnlyPublished t vm di → di.blocked = false ∧ copies t di vm.diTag = 1 ∧
    ∀ d, Unblocked t vm d → d.state = .published) ∧
  (∀ di, OnlyUnblocked t vm di → copies t di vm.diTag = 1 → di.state = .published ∧
    ∀ d, Published t vm d → d.blocked = false)

end Conditions

section Rows

variable {db : Database} {vm : Vm}

/-- The row is found by the query. -/
def found (t : Tables) (vm : Vm) (row : DiTag) : Bool :=
  row.tag = vm.diTag &&
    t.dis.any (fun di => di.id = row.diId && di.osfId = vm.osfId && !di.blocked)

theorem found_iff (vm : Vm) {row : DiTag} {di : Di} (hdi : di ∈ db.dis) (hrow : di.id = row.diId) :
    found db.toTables vm row = true ↔
      row.tag = vm.diTag ∧ di.osfId = vm.osfId ∧ di.blocked = false := by
  simp only [found, Bool.and_eq_true, decide_eq_true_eq, List.any_eq_true, Bool.not_eq_true']
  constructor
  · rintro ⟨htag, d, hd, ⟨hid, hosf⟩, hblocked⟩
    obtain rfl := di_ext hd hdi (hid.trans hrow.symm)
    exact ⟨htag, hosf, hblocked⟩
  · rintro ⟨htag, hosf, hblocked⟩
    exact ⟨htag, di, hdi, ⟨hrow, hosf⟩, hblocked⟩

/-- The rows of the query for one row of the tags. -/
theorem searchDi_row (vm : Vm) {row : DiTag} {di : Di} (hdi : di ∈ db.dis) (hrow : di.id = row.diId) :
    ∃ r : DiRow, r.id = di.id ∧
      (db.dis.flatMap (fun di => (db.osfs.filter (fun osf => di.osfId = osf.id &&
        row.diId = di.id && !di.blocked && osf.id = vm.osfId && row.tag = vm.diTag)).map
        (fun osf => DiRow.mk di.id di.path osf.useOverlay osf.userStorageSize osf.memory))) =
      if found db.toTables vm row then [r] else [] := by
  obtain ⟨osf, hosf, hosfId⟩ := List.mem_map.mp (db.valid.dis_osfs di hdi)
  refine ⟨DiRow.mk di.id di.path osf.useOverlay osf.userStorageSize osf.memory, rfl, ?_⟩
  rw [flatMap_of_key db.valid.dis_ids hdi ?_]
  · rw [filter_of_key db.valid.osfs_ids hosf (by grind)]
    have hf := found_iff vm hdi hrow
    by_cases h : found db.toTables vm row = true
    · obtain ⟨htag, hvm, hblocked⟩ := hf.mp h
      simp [h, htag, hrow, hblocked, hosfId, hvm]
    · have : ¬ (row.tag = vm.diTag ∧ di.osfId = vm.osfId ∧ di.blocked = false) :=
        fun h' => h (hf.mpr h')
      grind
  · intro d _ hne
    have : row.diId ≠ d.id := fun h => hne (h.symm.trans hrow.symm)
    simp [this]

theorem length_searchDi (db : Database) (vm : Vm) :
    (searchDi db.toTables vm).length = db.diTags.countP (found db.toTables vm) := by
  apply length_flatMap_eq_countP
  intro row hrow
  obtain ⟨di, hdi, hid⟩ := exists_di hrow
  obtain ⟨r, -, hr⟩ := searchDi_row vm hdi hid
  rw [hr]
  by_cases h : found db.toTables vm row <;> simp [h]

theorem of_mem_searchDi {r : DiRow} (h : r ∈ searchDi db.toTables vm) :
    ∃ di, Unblocked db.toTables vm di ∧ r.id = di.id := by
  obtain ⟨row, hrow, hr⟩ := List.mem_flatMap.mp h
  obtain ⟨di, hdi, hid⟩ := exists_di hrow
  obtain ⟨r', hr', heq⟩ := searchDi_row vm hdi hid
  rw [heq] at hr
  by_cases hfound : found db.toTables vm row = true
  · rw [if_pos hfound, List.mem_singleton] at hr
    obtain ⟨htag, hosf, hblocked⟩ := (found_iff vm hdi hid).mp hfound
    exact ⟨di, ⟨hdi, hosf, hblocked, ⟨row, hrow, hid.symm, htag⟩⟩, hr ▸ hr'⟩
  · rw [if_neg hfound] at hr
    cases hr

theorem mem_vmDi {di : Di} : di ∈ vmDi db.toTables vm ↔ Published db.toTables vm di := by
  simp only [vmDi, List.mem_filter, List.mem_flatMap, List.mem_map, Bool.and_eq_true,
    decide_eq_true_eq, Published, Carries]
  constructor
  · rintro ⟨hdi, hosf, d, hd, row, ⟨hrow, ⟨hid, htag⟩, hstate⟩, hsame⟩
    obtain rfl := di_ext hd hdi hsame
    exact ⟨hdi, hosf, hstate, row, hrow, hid, htag⟩
  · rintro ⟨hdi, hosf, hstate, row, hrow, hid, htag⟩
    exact ⟨hdi, hosf, di, hdi, row, ⟨hrow, ⟨hid, htag⟩, hstate⟩, rfl⟩

theorem length_vmDi_eq_one :
    (vmDi db.toTables vm).length = 1 ↔ ∃ di, OnlyPublished db.toTables vm di := by
  have hnodup : (vmDi db.toTables vm).Nodup :=
    (List.Nodup.of_map _ db.valid.dis_ids).filter _
  rw [length_eq_one_iff_of_nodup hnodup]
  simp only [mem_vmDi, OnlyPublished]

/-- An image whose tag is found in one row only. -/
theorem found_iff_of_onlyUnblocked {di : Di} (h : OnlyUnblocked db.toTables vm di) {row : DiTag}
    (hrow : row ∈ db.diTags) :
    found db.toTables vm row = true ↔ row.diId = di.id ∧ row.tag = vm.diTag := by
  obtain ⟨d, hd, hid⟩ := exists_di hrow
  rw [found_iff vm hd hid]
  constructor
  · rintro ⟨htag, hosf, hblocked⟩
    have hsame := h.2 d ⟨hd, hosf, hblocked, ⟨row, hrow, hid.symm, htag⟩⟩
    exact ⟨hid.symm.trans (congrArg Di.id hsame), htag⟩
  · rintro ⟨hdi, htag⟩
    obtain rfl := di_ext hd h.1.1 (hid.trans hdi)
    exact ⟨htag, h.1.2.1, h.1.2.2.1⟩

theorem countP_found {di : Di} (h : OnlyUnblocked db.toTables vm di) :
    db.diTags.countP (found db.toTables vm) = copies db.toTables di vm.diTag := by
  apply List.countP_congr
  intro row hrow
  rw [found_iff_of_onlyUnblocked h hrow]
  simp

theorem length_searchDi_eq_one : (searchDi db.toTables vm).length = 1 ↔
    ∃ di, OnlyUnblocked db.toTables vm di ∧ copies db.toTables di vm.diTag = 1 := by
  rw [length_searchDi]
  constructor
  · intro hone
    rw [List.countP_eq_length_filter, List.length_eq_one_iff] at hone
    obtain ⟨row, hrows⟩ := hone
    have hmem : ∀ r, r ∈ db.diTags ∧ found db.toTables vm r = true ↔ r = row := by
      intro r
      rw [← List.mem_filter, hrows, List.mem_singleton]
    obtain ⟨hrow, hfound⟩ := (hmem row).mpr rfl
    obtain ⟨di, hdi, hid⟩ := exists_di hrow
    obtain ⟨htag, hosf, hblocked⟩ := (found_iff vm hdi hid).mp hfound
    have honly : OnlyUnblocked db.toTables vm di := by
      refine ⟨⟨hdi, hosf, hblocked, ⟨row, hrow, hid.symm, htag⟩⟩, ?_⟩
      rintro d ⟨hd, hosf', hblocked', htag'⟩
      obtain ⟨r, hr, hrd, hrtag⟩ := htag'
      have hsame := (hmem r).mp ⟨hr, (found_iff vm hd hrd.symm).mpr ⟨hrtag, hosf', hblocked'⟩⟩
      rw [hsame] at hrd
      exact di_ext hd hdi (hrd.symm.trans hid.symm)
    refine ⟨di, honly, ?_⟩
    rw [← countP_found honly, List.countP_eq_length_filter, hrows, List.length_singleton]
  · rintro ⟨di, honly, hcopies⟩
    rw [countP_found honly, hcopies]

end Rows

section Agreement

variable {db : Database} {vm : Vm}

/-- The lookups agree exactly if the same image is the only one for both. -/
theorem lookupsAgree_iff : LookupsAgree db.toTables vm ↔
    ∀ di, OnlyPublished db.toTables vm di ↔
      OnlyUnblocked db.toTables vm di ∧ copies db.toTables di vm.diTag = 1 := by
  constructor
  · rintro ⟨hiff, hsame⟩ di
    rw [length_searchDi_eq_one, length_vmDi_eq_one] at hiff
    have key : ∀ d e, OnlyPublished db.toTables vm d → OnlyUnblocked db.toTables vm e →
        copies db.toTables e vm.diTag = 1 → d = e := by
      intro d e hd he hcopies
      obtain ⟨r, hr⟩ := List.length_eq_one_iff.mp (length_searchDi_eq_one.mpr ⟨e, he, hcopies⟩)
      obtain ⟨d', hd'⟩ := List.length_eq_one_iff.mp (length_vmDi_eq_one.mpr ⟨d, hd⟩)
      have hdd : d = d' := by
        have : d ∈ vmDi db.toTables vm := mem_vmDi.mpr hd.1
        rwa [hd', List.mem_singleton] at this
      obtain ⟨e', he', hre⟩ := of_mem_searchDi (hr ▸ List.mem_singleton_self r)
      have hid := (hsame r d' hr hd').1
      rw [← hdd, hre, he.2 e' he'] at hid
      exact di_ext hd.1.1 he.1.1 hid.symm
    constructor
    · intro hd
      obtain ⟨e, he, hcopies⟩ := hiff.mpr ⟨di, hd⟩
      rw [key di e hd he hcopies]
      exact ⟨he, hcopies⟩
    · rintro ⟨he, hcopies⟩
      obtain ⟨d, hd⟩ := hiff.mp ⟨di, he, hcopies⟩
      rwa [← key d di hd he hcopies]
  · intro h
    constructor
    · rw [length_searchDi_eq_one, length_vmDi_eq_one]
      exact exists_congr fun di => (h di).symm
    · intro r di hr hdi
      obtain ⟨e, he, hre⟩ := of_mem_searchDi (hr ▸ List.mem_singleton_self r)
      obtain ⟨d, hd⟩ := length_vmDi_eq_one.mp (congrArg List.length hdi)
      have hdd : d = di := by
        have : d ∈ vmDi db.toTables vm := mem_vmDi.mpr hd.1
        rwa [hdi, List.mem_singleton] at this
      subst hdd
      have hsame := ((h d).mp hd).1.2 e he
      exact ⟨hre.trans (congrArg Di.id hsame), hd.1.2.2.1⟩

theorem lookupsAgree_iff_lookupOk : LookupsAgree db.toTables vm ↔ LookupOk db.toTables vm := by
  rw [lookupsAgree_iff]
  constructor
  · intro h
    constructor
    · intro di hdi
      obtain ⟨honly, hcopies⟩ := (h di).mp hdi
      refine ⟨honly.1.2.2.1, hcopies, fun d hd => ?_⟩
      rw [honly.2 d hd]
      exact hdi.1.2.2.1
    · intro di honly hcopies
      have hdi := (h di).mpr ⟨honly, hcopies⟩
      refine ⟨hdi.1.2.2.1, fun d hd => ?_⟩
      rw [hdi.2 d hd]
      exact honly.1.2.2.1
  · rintro ⟨hpublished, hunblocked⟩ di
    constructor
    · intro hdi
      obtain ⟨hblocked, hcopies, hothers⟩ := hpublished di hdi
      refine ⟨⟨⟨hdi.1.1, hdi.1.2.1, hblocked, hdi.1.2.2.2⟩, fun d hd => ?_⟩, hcopies⟩
      exact hdi.2 d ⟨hd.1, hd.2.1, hothers d hd, hd.2.2.2⟩
    · rintro ⟨honly, hcopies⟩
      obtain ⟨hstate, hothers⟩ := hunblocked di honly hcopies
      refine ⟨⟨honly.1.1, honly.1.2.1, hstate, honly.1.2.2.2⟩, fun d hd => ?_⟩
      exact honly.2 d ⟨hd.1, hd.2.1, hothers d hd, hd.2.2.2⟩

/-- In every state of a run and for every machine, the lookups agree exactly if the images
with its tag meet the condition. -/
theorem lookups_agree_iff {w : World} (_h : diskImages.Reachable w) (vm : Vm) :
    LookupsAgree w.db.toTables vm ↔ LookupOk w.db.toTables vm :=
  lookupsAgree_iff_lookupOk

/-- An image that is created, made and published. -/
def publishedWorld : World :=
  [Action.call (.diCreate (creation 1 "1.0" [])) 3, .prepare 1 .ready,
    .call (.diPublish 1) 2].foldl World.after emptyWorld

theorem lookups_agree_published :
    LookupsAgree publishedWorld.db.toTables { osfId := 1, diTag := "head", currentDiId := none } := by
  apply (lookups_agree_iff (reachable_emptyWorld _) _).mpr
  have hdis : ∀ di ∈ publishedWorld.db.dis, di.blocked = false ∧ di.state = .published ∧
      copies publishedWorld.db.toTables di "head" = 1 := by
    decide
  constructor
  · rintro di ⟨⟨hdi, -⟩, -⟩
    obtain ⟨hblocked, -, hcopies⟩ := hdis di hdi
    exact ⟨hblocked, hcopies, fun d hd => (hdis d hd.1).2.1⟩
  · rintro di ⟨⟨hdi, -⟩, -⟩ -
    exact ⟨(hdis di hdi).2.1, fun d hd => (hdis d hd.1).1⟩

/-- A new image has the tag head before it is published. -/
theorem lookups_disagree : ∃ w vm, diskImages.Reachable w ∧ ¬ LookupsAgree w.db.toTables vm := by
  refine ⟨_, { osfId := 1, diTag := "head", currentDiId := none },
    reachable_emptyWorld [.call (.diCreate (creation 1 "1.0" [])) 3], fun h => ?_⟩
  have hnone := h.1.mp (by decide)
  revert hnone
  decide

end Agreement

end Qvd.TagLookups
