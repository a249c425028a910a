import Mathlib.Data.List.Find
import Mathlib.Data.List.Nodup
import Mathlib.Order.Lattice

/-!
A list that several owners share. One of them puts its items behind what stands there, in a fixed
order, and takes the first of each away in the opposite order. Wherever it is interrupted, and
whatever the others do with their own items, what stands of its items is a front part of them.
-/
namespace Qvd.OwnedItems

variable {α : Type*} [DecidableEq α] {own l : List α} {a : α} {k n : ℕ}

/-- What stands in the list of an owner's items. -/
def standing (own l : List α) : List α := l.filter (· ∈ own)

/-- The items of the others. -/
def foreign (own l : List α) : List α := l.filter (· ∉ own)

/-- The list without the first of the items that are equal to one. -/
def removeFirst (l : List α) (a : α) : List α := l.erase a

theorem standing_append (h : a ∈ own) : standing own (l ++ [a]) = standing own l ++ [a] := by
  simp [standing, List.filter_append, h]

theorem foreign_append (h : a ∈ own) : foreign own (l ++ [a]) = foreign own l := by
  simp [foreign, List.filter_append, h]

theorem foreign_removeFirst (h : a ∈ own) : foreign own (removeFirst l a) = foreign own l := by
  rw [foreign, removeFirst, ← List.erase_filter, List.erase_of_not_mem]
  · rfl
  · intro hmem
    have hforeign := (List.mem_filter.mp hmem).2
    simp [h] at hforeign

omit [DecidableEq α] in
/-- The next item behind a front part makes a longer one. -/
theorem take_getElem? (h : own[n]? = some a) : own.take n ++ [a] = own.take (n + 1) := by
  rw [List.take_add_one, h]
  rfl

/-- Of the front part an item is taken off whose place is not before its end. -/
theorem erase_take (hnodup : own.Nodup) (h : own[n]? = some a) (hk : k ≤ n + 1) :
    (own.take k).erase a = own.take (min k n) := by
  have hfresh : a ∉ own.take n := by
    intro hmem
    obtain ⟨i, hi, hget⟩ := List.mem_take_iff_getElem.mp hmem
    obtain ⟨hn, hget'⟩ := List.getElem?_eq_some_iff.mp h
    have heq := (List.Nodup.getElem_inj_iff hnodup).mp (hget.trans hget'.symm)
    omega
  rcases Nat.eq_or_lt_of_le hk with rfl | hlt
  · rw [← take_getElem? h, List.erase_append_right _ hfresh, min_eq_right (Nat.le_succ n)]
    simp
  · rw [min_eq_left (by omega), List.erase_of_not_mem]
    intro hmem
    exact hfresh ((List.take_subset_take_left own (by omega)) hmem)

theorem standing_removeFirst (hnodup : own.Nodup) (h : own[n]? = some a) (hk : k ≤ n + 1)
    (hstanding : standing own l = own.take k) :
    standing own (removeFirst l a) = own.take (min k n) := by
  rw [standing, removeFirst, ← List.erase_filter]
  show (standing own l).erase a = _
  rw [hstanding, erase_take hnodup h hk]

/-- Where no item of the others has a property, the first item with it is the owner's first. -/
theorem find?_eq_standing {p : α → Bool} (h : ∀ b ∈ foreign own l, p b = false) :
    l.find? p = (standing own l).find? p := by
  rw [standing, List.find?_filter]
  refine List.find?_congr fun b hb => ?_
  by_cases hown : b ∈ own
  · simp [hown]
  · have hp := h b (List.mem_filter.mpr ⟨hb, by simpa using hown⟩)
    simp [hp]

end Qvd.OwnedItems
