import Mathlib.Data.Finset.Card
import Mathlib.Data.List.Dedup

/-!
Evaluation of a recursive query with UNION by a working table.
Each round applies the recursive term to the rows the previous round found
and keeps the rows not seen before; the query ends at an empty working table.
-/
namespace Qvd.RecursiveQuery

variable {α : Type*}

/-- The rows of the non-recursive term, and the rows the recursive term yields from a
working table. It refers to the working table once, so it yields rows from single rows. -/
structure Query (α : Type*) where
  base : List α
  recursive : α → List α

/-- The rows the query defines: the least set closed under both terms. -/
inductive Query.Derivable (q : Query α) : α → Prop
  | base {x : α} (h : x ∈ q.base) : Derivable q x
  | step {x y : α} (hx : Derivable q x) (h : y ∈ q.recursive x) : Derivable q y

/-- Everything found so far, and what the last round added. -/
structure Tables (α : Type*) where
  result : List α
  working : List α
deriving Repr, DecidableEq

variable [DecidableEq α]

namespace Query

def start (q : Query α) : Tables α :=
  { result := q.base.dedup, working := q.base.dedup }

/-- UNION drops the rows that repeat each other or a row of the result. -/
def fresh (q : Query α) (t : Tables α) : List α :=
  ((t.working.flatMap q.recursive).filter (fun x => x ∉ t.result)).dedup

def round (q : Query α) (t : Tables α) : Tables α :=
  { result := t.result ++ q.fresh t, working := q.fresh t }

def rounds (q : Query α) : ℕ → Tables α
  | 0 => q.start
  | n + 1 => q.round (q.rounds n)

theorem mem_fresh (q : Query α) (t : Tables α) (y : α) :
    y ∈ q.fresh t ↔ (∃ x ∈ t.working, y ∈ q.recursive x) ∧ y ∉ t.result := by
  simp only [fresh, List.mem_dedup, List.mem_filter, List.mem_flatMap, decide_eq_true_eq]

/-- What holds of the tables of every round. -/
structure Sound (q : Query α) (t : Tables α) : Prop where
  nodup : t.result.Nodup
  working_subset : ∀ x ∈ t.working, x ∈ t.result
  derivable : ∀ x ∈ t.result, q.Derivable x
  base_subset : ∀ x ∈ q.base, x ∈ t.result
  closed : ∀ x ∈ t.result, x ∉ t.working → ∀ y ∈ q.recursive x, y ∈ t.result

theorem sound_start (q : Query α) : Sound q q.start := by
  refine ⟨List.nodup_dedup _, fun x hx => hx, ?_, ?_, ?_⟩
  · intro x hx
    exact Derivable.base (List.mem_dedup.mp hx)
  · intro x hx
    exact List.mem_dedup.mpr hx
  · intro x hx hnot
    exact absurd hx hnot

theorem sound_round (q : Query α) {t : Tables α} (h : Sound q t) : Sound q (q.round t) := by
  have hfresh : ∀ y ∈ q.fresh t, y ∉ t.result := fun y hy => ((mem_fresh q t y).mp hy).2
  refine ⟨?_, ?_, ?_, ?_, ?_⟩
  · exact List.Nodup.append h.nodup (List.nodup_dedup _) fun y hy hy' => hfresh y hy' hy
  · intro x hx
    exact List.mem_append_right _ hx
  · intro y hy
    rcases List.mem_append.mp hy with hy | hy
    · exact h.derivable y hy
    · obtain ⟨⟨x, hx, hxy⟩, -⟩ := (mem_fresh q t y).mp hy
      exact Derivable.step (h.derivable x (h.working_subset x hx)) hxy
  · intro x hx
    exact List.mem_append_left _ (h.base_subset x hx)
  · intro x hx hnot y hxy
    have hold : x ∈ t.result := by
      rcases List.mem_append.mp hx with hx | hx
      · exact hx
      · exact absurd hx hnot
    by_cases hy : y ∈ t.result
    · exact List.mem_append_left _ hy
    · by_cases hw : x ∈ t.working
      · exact List.mem_append_right _ ((mem_fresh q t y).mpr ⟨⟨x, hw, hxy⟩, hy⟩)
      · exact absurd (h.closed x hold hw y hxy) hy

theorem sound_rounds (q : Query α) (n : ℕ) : Sound q (q.rounds n) := by
  induction n with
  | zero => exact sound_start q
  | succ n ih => exact sound_round q ih

/-- A query that has ended has found exactly the rows it defines. -/
theorem mem_rounds_iff (q : Query α) {n : ℕ} (hend : (q.rounds n).working = []) (x : α) :
    x ∈ (q.rounds n).result ↔ q.Derivable x := by
  have hs := sound_rounds q n
  constructor
  · exact hs.derivable x
  · intro h
    induction h with
    | base h => exact hs.base_subset _ h
    | step _ h ih => exact hs.closed _ ih (by simp [hend]) _ h

/-- A round that does not end the query adds a row. -/
theorem length_result_or_end (q : Query α) (n : ℕ) :
    (q.rounds n).working = [] ∨ n ≤ (q.rounds n).result.length := by
  induction n with
  | zero => exact Or.inr (Nat.zero_le _)
  | succ n ih =>
    by_cases hw : (q.rounds (n + 1)).working = []
    · exact Or.inl hw
    · right
      have hfresh : q.fresh (q.rounds n) ≠ [] := hw
      have hpos := List.length_pos_iff.mpr hfresh
      have hold : (q.rounds n).working ≠ [] := by
        intro hnil
        apply hfresh
        simp [fresh, hnil]
      have hn := ih.resolve_left hold
      show n + 1 ≤ ((q.rounds n).result ++ q.fresh (q.rounds n)).length
      rw [List.length_append]
      omega

/-- A query over finitely many rows ends within one round more than there are rows. -/
theorem rounds_end (q : Query α) (rows : List α) (h : ∀ x, q.Derivable x → x ∈ rows) :
    (q.rounds (rows.length + 1)).working = [] := by
  have hs := sound_rounds q (rows.length + 1)
  have hsub : (q.rounds (rows.length + 1)).result ⊆ rows :=
    fun x hx => h x (hs.derivable x hx)
  have hle : (q.rounds (rows.length + 1)).result.length ≤ rows.length :=
    (hs.nodup.subperm hsub).length_le
  rcases length_result_or_end q (rows.length + 1) with hend | hlen
  · exact hend
  · omega

/-- The answer of a query whose rows all lie among the given ones. -/
def answer (q : Query α) (rows : List α) : List α :=
  (q.rounds (rows.length + 1)).result

theorem mem_answer_iff (q : Query α) (rows : List α) (h : ∀ x, q.Derivable x → x ∈ rows)
    (x : α) : x ∈ q.answer rows ↔ q.Derivable x :=
  mem_rounds_iff q (rounds_end q rows h) x

end Query

end Qvd.RecursiveQuery
