import Mathlib.Data.List.Basic
import Mathlib.Order.Basic
import Mathlib.Data.Nat.Find

/-!
A list kept sorted by a key through a stable sort after every addition: its first element with
a property is, of the elements added, one of least key with the property, and the earliest.
-/
namespace Qvd.StableSort

variable {α : Type*}

def byKey (key : α → ℕ) (l : List α) : List α := l.mergeSort fun a b => key a ≤ key b

/-- The elements of each key stand in the order in which they were added. -/
structure StablySorted (key : α → ℕ) (added sorted : List α) : Prop where
  ordered : sorted.Pairwise fun a b => key a ≤ key b
  stable : ∀ n, sorted.filter (key · = n) = added.filter (key · = n)

/-- The element has the property, and none before it. -/
def First (p : α → Prop) (l : List α) (a : α) : Prop :=
  p a ∧ ∃ front back, l = front ++ a :: back ∧ ∀ x ∈ front, ¬ p x

/-- The element has the property, with a key no greater than the others', and less than that
of the earlier ones. -/
def Least (key : α → ℕ) (p : α → Prop) (l : List α) (a : α) : Prop :=
  p a ∧ ∃ front back, l = front ++ a :: back ∧ (∀ x ∈ front, p x → key a < key x) ∧
    ∀ x ∈ back, p x → key a ≤ key x

variable {key : α → ℕ} {p : α → Prop} {added sorted : List α} {a b : α}

theorem pairwise_byKey (l : List α) : (byKey key l).Pairwise fun a b => key a ≤ key b := by
  have h : (l.mergeSort fun a b => decide (key a ≤ key b)).Pairwise
      fun a b => decide (key a ≤ key b) = true := List.pairwise_mergeSort
    (fun a b c hab hbc => by
      rw [decide_eq_true_eq] at *
      exact hab.trans hbc)
    (fun a b => by
      rw [Bool.or_eq_true, decide_eq_true_eq, decide_eq_true_eq]
      exact le_total _ _) l
  exact h.imp of_decide_eq_true

theorem filter_byKey (l : List α) (n : ℕ) :
    (byKey key l).filter (key · = n) = l.filter (key · = n) := by
  have hordered : (l.filter (key · = n)).Pairwise fun a b => decide (key a ≤ key b) = true := by
    refine List.pairwise_of_forall_mem_list fun a ha b hb => ?_
    have hkey := of_decide_eq_true (List.mem_filter.mp ha).2
    have hkey' := of_decide_eq_true (List.mem_filter.mp hb).2
    exact decide_eq_true (hkey.trans hkey'.symm).le
  have hsub : (l.filter (key · = n)).Sublist (byKey key l) :=
    List.sublist_mergeSort
      (fun a b c hab hbc => by
        rw [decide_eq_true_eq] at *
        exact hab.trans hbc)
      (fun a b => by
        rw [Bool.or_eq_true, decide_eq_true_eq, decide_eq_true_eq]
        exact le_total _ _)
      hordered List.filter_sublist
  have hsub' := hsub.filter (key · = n)
  rw [List.filter_filter] at hsub'
  simp only [Bool.and_self] at hsub'
  exact (hsub'.eq_of_length ((List.mergeSort_perm l _).filter _).length_eq.symm).symm

theorem StablySorted.nil : StablySorted key ([] : List α) [] := ⟨.nil, fun _ => rfl⟩

theorem StablySorted.add (h : StablySorted key added sorted) (a : α) :
    StablySorted key (added ++ [a]) (byKey key (sorted ++ [a])) := by
  refine ⟨pairwise_byKey _, fun n => ?_⟩
  rw [filter_byKey, List.filter_append, List.filter_append, h.stable]

theorem StablySorted.mem_iff (h : StablySorted key added sorted) : a ∈ sorted ↔ a ∈ added := by
  have hfilter := congrArg (a ∈ ·) (h.stable (key a))
  simpa [List.mem_filter] using hfilter

/-- In a sorted list the first element with the property has a least key. -/
theorem First.key_le (h : First p sorted a)
    (hordered : sorted.Pairwise fun a b => key a ≤ key b) (hb : b ∈ sorted) (hp : p b) :
    key a ≤ key b := by
  obtain ⟨-, front, back, rfl, hfront⟩ := h
  rcases List.mem_append.mp hb with hb | hb
  · exact absurd hp (hfront b hb)
  · rcases List.mem_cons.mp hb with rfl | hb
    · exact le_refl _
    · exact (List.pairwise_cons.mp (List.pairwise_append.mp hordered).2.1).1 b hb

theorem exists_first (ha : a ∈ sorted) (hp : p a) : ∃ b, First p sorted b := by
  induction sorted with
  | nil => simp at ha
  | cons c sorted ih =>
    by_cases hc : p c
    · exact ⟨c, hc, [], sorted, rfl, by simp⟩
    · rcases List.mem_cons.mp ha with rfl | ha
      · exact absurd hp hc
      · obtain ⟨b, hb, front, back, rfl, hfront⟩ := ih ha
        exact ⟨b, hb, c :: front, back, rfl, by simpa using ⟨hc, hfront⟩⟩

/-- Among the elements of one key, the first with the property can be read off either list. -/
theorem First.filter (h : First p sorted a) : First p (sorted.filter (key · = key a)) a := by
  obtain ⟨hp, front, back, rfl, hfront⟩ := h
  refine ⟨hp, front.filter (key · = key a), back.filter (key · = key a), by simp, ?_⟩
  intro x hx
  exact hfront x (List.mem_filter.mp hx).1

theorem First.unique (h : First p sorted a) (h' : First p sorted b) : a = b := by
  obtain ⟨ha, front, back, hl, hfront⟩ := h
  obtain ⟨hb, front', back', hl', hfront'⟩ := h'
  rw [hl] at hl'
  rcases List.append_eq_append_iff.mp hl' with ⟨mid, hf, hrest⟩ | ⟨mid, hf, hrest⟩
  · cases mid with
    | nil => exact (List.cons.inj hrest).1
    | cons c mid =>
      obtain ⟨rfl, -⟩ := List.cons.inj hrest
      exact absurd ha (hfront' a (by simp [hf]))
  · cases mid with
    | nil => exact (List.cons.inj hrest).1.symm
    | cons c mid =>
      obtain ⟨rfl, -⟩ := List.cons.inj hrest
      exact absurd hb (hfront b (by simp [hf]))

theorem Least.first_filter (h : Least key p added a) :
    First p (added.filter (key · = key a)) a := by
  obtain ⟨hp, front, back, rfl, hfront, -⟩ := h
  refine ⟨hp, front.filter (key · = key a), back.filter (key · = key a), by simp, ?_⟩
  intro x hx hpx
  obtain ⟨hmem, hkey⟩ := List.mem_filter.mp hx
  exact absurd (of_decide_eq_true hkey) (hfront x hmem hpx).ne'

theorem Least.mem (h : Least key p added a) : a ∈ added := by
  obtain ⟨-, front, back, rfl, -⟩ := h
  simp

theorem Least.key_le (h : Least key p added a) (hb : b ∈ added) (hp : p b) : key a ≤ key b := by
  obtain ⟨-, front, back, rfl, hfront, hback⟩ := h
  rcases List.mem_append.mp hb with hb | hb
  · exact (hfront b hb hp).le
  · rcases List.mem_cons.mp hb with rfl | hb
    · exact le_refl _
    · exact hback b hb hp

/-- An element is least if it is first among those of its key, and no key is less. -/
theorem least_of_first_filter (h : First p (added.filter (key · = key a)) a)
    (hle : ∀ b ∈ added, p b → key a ≤ key b) : Least key p added a := by
  obtain ⟨hp, front, back, hl, hfront⟩ := h
  obtain ⟨front', back', rfl, hf, hb⟩ := List.filter_eq_append_iff.mp hl
  obtain ⟨skipped, back'', rfl, hskipped, -, -⟩ := List.filter_eq_cons_iff.mp hb
  refine ⟨hp, front' ++ skipped, back'', by simp, ?_, fun x hx => hle x (by simp [hx])⟩
  intro x hx hpx
  refine lt_of_le_of_ne (hle x (by simp at hx ⊢; tauto) hpx) fun hkey => ?_
  rcases List.mem_append.mp hx with hx | hx
  · refine hfront x ?_ hpx
    rw [← hf]
    exact List.mem_filter.mpr ⟨hx, decide_eq_true hkey.symm⟩
  · exact hskipped x hx (decide_eq_true hkey.symm)

/-- The first of the sorted list is the least of those added. -/
theorem StablySorted.first_iff_least (h : StablySorted key added sorted) :
    First p sorted a ↔ Least key p added a := by
  have hleast : ∀ {b}, First p sorted b → Least key p added b := by
    intro b hfirst
    refine least_of_first_filter (h.stable (key b) ▸ hfirst.filter) fun c hc hp => ?_
    exact hfirst.key_le h.ordered (h.mem_iff.mpr hc) hp
  refine ⟨hleast, fun hl => ?_⟩
  obtain ⟨b, hb⟩ := exists_first (h.mem_iff.mpr hl.mem) hl.1
  have hkey : key a = key b :=
    le_antisymm (hl.key_le (hleast hb).mem hb.1) ((hleast hb).key_le hl.mem hl.1)
  have hfilter : First p (sorted.filter (key · = key b)) b := hb.filter
  rw [h.stable, ← hkey] at hfilter
  rw [hl.first_filter.unique hfilter]
  exact hb

end Qvd.StableSort
