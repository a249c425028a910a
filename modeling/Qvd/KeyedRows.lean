import Mathlib.Data.List.Nodup
import Mathlib.Data.List.Perm.Basic
import Mathlib.Data.List.Rotate

/-!
Tables as lists of rows with a key. A row is added if no row with its key is there already; the
first row of a key stays. Hashes are lists with a key too, and are walked in any order.
-/
namespace Qvd.KeyedRows

/-- The order in which a hash is walked: any, with every key once. -/
structure HashOrder where
  keys : ∀ {α : Type}, List α → List α
  perm : ∀ {α : Type} (l : List α), (keys l).Perm l

def rotated (i : ℕ) : HashOrder := ⟨fun l => l.rotate i, fun l => List.rotate_perm l i⟩

/-- Any key can come first. -/
theorem exists_rotated {α : Type} {l : List α} {a : α} (h : a ∈ l) :
    ∃ i rest, (rotated i).keys l = a :: rest := by
  obtain ⟨front, back, rfl⟩ := List.append_of_mem h
  exact ⟨front.length, back ++ front, List.rotate_append_length_eq front (a :: back)⟩

/-- And any last. -/
theorem exists_rotated_last {α : Type} {l : List α} {a : α} (h : a ∈ l) :
    ∃ i front, (rotated i).keys l = front ++ [a] := by
  obtain ⟨front, back, rfl⟩ := List.append_of_mem h
  refine ⟨(front ++ [a]).length, back ++ front, ?_⟩
  have hsplit : front ++ a :: back = front ++ [a] ++ back := List.append_cons front a back
  rw [hsplit]
  exact (List.rotate_append_length_eq (front ++ [a]) back).trans (List.append_assoc ..).symm

variable {α κ : Type*} [DecidableEq κ] {key : α → κ}

def insertNew (key : α → κ) (rows : List α) (row : α) : List α :=
  if key row ∈ rows.map key then rows else rows ++ [row]

theorem mem_insertNew_of_mem {rows : List α} {row other : α} (h : other ∈ rows) :
    other ∈ insertNew key rows row := by
  unfold insertNew
  split
  · exact h
  · exact List.mem_append_left _ h

/-- What is there stays. -/
theorem mem_foldl_of_mem {rows new : List α} {row : α} (h : row ∈ rows) :
    row ∈ new.foldl (insertNew key) rows := by
  induction new generalizing rows with
  | nil => exact h
  | cons first new ih => exact ih (mem_insertNew_of_mem h)

/-- Of new rows with different keys those are added whose keys are not there yet. -/
theorem foldl_insertNew {rows new : List α} (h : (new.map key).Nodup) :
    new.foldl (insertNew key) rows = rows ++ new.filter (fun row => key row ∉ rows.map key) := by
  induction new generalizing rows with
  | nil => exact (List.append_nil rows).symm
  | cons first new ih =>
    obtain ⟨hfirst, hrest⟩ := List.nodup_cons.mp h
    rw [List.foldl_cons, ih hrest]
    unfold insertNew
    by_cases hin : key first ∈ rows.map key
    · rw [if_pos hin, List.filter_cons_of_neg (by simpa using hin)]
    · rw [if_neg hin, List.filter_cons_of_pos (by simpa using hin), List.append_assoc,
        List.singleton_append]
      refine congrArg (rows ++ first :: ·) (List.filter_congr fun row hmem => ?_)
      have hne : key row ≠ key first := fun hsame => hfirst (hsame ▸ List.mem_map_of_mem hmem)
      have hsame : key row ∈ (rows ++ [first]).map key ↔ key row ∈ rows.map key := by
        rw [List.map_append, List.mem_append, List.map_singleton, List.mem_singleton]
        exact or_iff_left hne
      exact decide_eq_decide.mpr (not_congr hsame)

theorem foldl_insertNew_of_fresh {rows new : List α} (h : (new.map key).Nodup)
    (hfresh : ∀ row ∈ new, key row ∉ rows.map key) :
    new.foldl (insertNew key) rows = rows ++ new := by
  rw [foldl_insertNew h, List.filter_eq_self.mpr fun row hmem => decide_eq_true (hfresh row hmem)]

/-- With different keys a key is there once or not at all. -/
theorem countP_eq_one_iff {rows : List α} (h : (rows.map key).Nodup) (k : κ) :
    rows.countP (fun row => key row = k) = 1 ↔ ∃ row ∈ rows, key row = k := by
  have hcount : rows.countP (fun row => key row = k) = (rows.map key).count k := by
    rw [List.count_eq_countP, List.countP_map]
    exact List.countP_congr fun row _ => by simp
  rw [hcount]
  constructor
  · intro hone
    exact List.mem_map.mp (List.count_pos_iff.mp (hone ▸ Nat.one_pos))
  · intro hin
    exact List.count_eq_one_of_mem h (List.mem_map.mpr hin)

end Qvd.KeyedRows
