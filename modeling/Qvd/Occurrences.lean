import Mathlib.Data.List.Basic
import Mathlib.Data.List.Count

/-!
The numbered occurrences of an element in a list, and what becomes of them when an element is
left out or replaced, or others are appended.
-/
namespace Qvd.Occurrences

variable {α : Type*} [BEq α] [LawfulBEq α] {l m front back : List α} {a b c : α} {n i j : ℕ}

/-- The element at the index is the n-th of its kind, counted from 1. -/
def IsOccurrence (l : List α) (a : α) (n i : ℕ) : Prop :=
  l[i]? = some a ∧ (l.take i).count a + 1 = n

omit [LawfulBEq α] in
theorem IsOccurrence.lt_length (h : IsOccurrence l a n i) : i < l.length :=
  (List.getElem?_eq_some_iff.mp h.1).1

theorem count_take_succ (h : l[i]? = some a) :
    (l.take (i + 1)).count a = (l.take i).count a + 1 := by
  rw [List.take_add_one, h, List.count_append]
  exact congrArg _ List.count_singleton_self

theorem IsOccurrence.not_lt (h : IsOccurrence l a n i) (h' : IsOccurrence l a n j) : ¬ i < j := by
  intro hlt
  have hcount : (l.take (i + 1)).count a ≤ (l.take j).count a :=
    (List.take_sublist_take_left (Nat.succ_le_of_lt hlt)).count_le a
  rw [count_take_succ h.1, h.2, ← h'.2] at hcount
  omega

theorem IsOccurrence.unique (h : IsOccurrence l a n i) (h' : IsOccurrence l a n j) : i = j :=
  Nat.le_antisymm (Nat.le_of_not_lt (h'.not_lt h)) (Nat.le_of_not_lt (h.not_lt h'))

section Append

omit [LawfulBEq α] in
/-- Whether an element is the n-th is seen from those before it. -/
theorem isOccurrence_append (hlt : i < front.length) :
    IsOccurrence (front ++ back) a n i ↔ IsOccurrence front a n i := by
  unfold IsOccurrence
  rw [List.getElem?_append_left hlt, List.take_append_of_le_length (Nat.le_of_lt hlt)]

omit [LawfulBEq α] in
theorem isOccurrence_append_right :
    IsOccurrence (front ++ back) a n (front.length + j) ↔
      back[j]? = some a ∧ front.count a + (back.take j).count a + 1 = n := by
  unfold IsOccurrence
  rw [List.getElem?_append_right (Nat.le_add_right _ _), Nat.add_sub_cancel_left,
    List.take_length_add_append, List.count_append]

/-- Another element that is left out moves the later occurrences up. -/
theorem isOccurrence_leftOut (hne : b ≠ a) :
    IsOccurrence (front ++ b :: back) a n (front.length + (j + 1)) ↔
      IsOccurrence (front ++ back) a n (front.length + j) := by
  rw [isOccurrence_append_right, isOccurrence_append_right, List.getElem?_cons_succ,
    List.take_succ_cons, List.count_cons_of_ne hne]

/-- One that is replaced by yet another leaves them as they are. -/
theorem isOccurrence_replaced (hne : b ≠ a) (hne' : c ≠ a) :
    IsOccurrence (front ++ b :: back) a n (front.length + (j + 1)) ↔
      IsOccurrence (front ++ c :: back) a n (front.length + (j + 1)) := by
  rw [isOccurrence_leftOut hne, isOccurrence_leftOut hne']

end Append

end Qvd.Occurrences
