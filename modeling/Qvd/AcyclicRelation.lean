import Mathlib.Data.Nat.Notation
import Mathlib.Logic.Relation
import Mathlib.Order.Defs.PartialOrder

/-!
Acyclic relations, and what adding or removing pairs does to them.
-/
namespace Qvd.AcyclicRelation

open Relation

variable {α : Type*}

/-- Nothing reaches itself in one or more steps. -/
def Acyclic (r : α → α → Prop) : Prop :=
  ∀ x, ¬ TransGen r x x

theorem acyclic_of_empty {r : α → α → Prop} (h : ∀ x y, ¬ r x y) : Acyclic r := by
  intro x hx
  obtain ⟨y, -, hy⟩ := TransGen.tail'_iff.mp hx
  exact h y x hy

/-- A relation that only goes up in an order is acyclic. -/
theorem acyclic_of_lt [Preorder α] {r : α → α → Prop} (h : ∀ x y, r x y → x < y) :
    Acyclic r := by
  intro x hx
  have hlt : ∀ y, TransGen r x y → x < y := by
    intro y hy
    induction hy with
    | single hxy => exact h _ _ hxy
    | tail _ hyz ih => exact lt_trans ih (h _ _ hyz)
  exact lt_irrefl x (hlt x hx)

/-- A relation that only goes down in rank is acyclic. -/
theorem acyclic_of_rank {r : α → α → Prop} (rank : α → ℕ) (h : ∀ x y, r x y → rank y < rank x) :
    Acyclic r := by
  intro x hx
  have hlt : ∀ y, TransGen r x y → rank y < rank x := by
    intro y hy
    induction hy with
    | single hxy => exact h _ _ hxy
    | tail _ hyz ih => exact Nat.lt_trans (h _ _ hyz) ih
  exact Nat.lt_irrefl _ (hlt x hx)

/-- Removing pairs closes no cycle. -/
theorem Acyclic.mono {r s : α → α → Prop} (hs : Acyclic s) (h : ∀ x y, r x y → s x y) :
    Acyclic r :=
  fun x hx => hs x (TransGen.mono h x x hx)

/-- The relation with one more pair. -/
def extend (r : α → α → Prop) (a b : α) (x y : α) : Prop :=
  r x y ∨ (x = a ∧ y = b)

/-- A path that uses the new pair reaches its source and leaves from its target. -/
theorem transGen_extend {r : α → α → Prop} {a b x y : α} (h : TransGen (extend r a b) x y) :
    TransGen r x y ∨ (ReflTransGen r x a ∧ ReflTransGen r b y)
      ∨ ReflTransGen r b a := by
  induction h with
  | single h =>
    rcases h with h | ⟨rfl, rfl⟩
    · exact Or.inl (TransGen.single h)
    · exact Or.inr (Or.inl ⟨ReflTransGen.refl, ReflTransGen.refl⟩)
  | tail _ h ih =>
    rcases h with h | ⟨rfl, rfl⟩
    · rcases ih with ih | ⟨hxa, hby⟩ | hba
      · exact Or.inl (ih.tail h)
      · exact Or.inr (Or.inl ⟨hxa, hby.tail h⟩)
      · exact Or.inr (Or.inr hba)
    · rcases ih with ih | ⟨-, hba⟩ | hba
      · exact Or.inr (Or.inl ⟨ih.to_reflTransGen, ReflTransGen.refl⟩)
      · exact Or.inr (Or.inr hba)
      · exact Or.inr (Or.inr hba)

/-- A new pair keeps the relation acyclic exactly when its target does not reach its source. -/
theorem acyclic_extend_iff {r : α → α → Prop} (hr : Acyclic r) (a b : α) :
    Acyclic (extend r a b) ↔ ¬ ReflTransGen r b a := by
  constructor
  · intro h hba
    have hlift : ReflTransGen (extend r a b) b a :=
      ReflTransGen.mono (fun _ _ hxy => Or.inl hxy) b a hba
    exact h a (TransGen.head' (Or.inr ⟨rfl, rfl⟩) hlift)
  · intro hba x hx
    rcases transGen_extend hx with hx | ⟨hxa, hbx⟩ | hcycle
    · exact hr x hx
    · exact hba (hbx.trans hxa)
    · exact hba hcycle

/-- When the direct successors of a point are closed under the relation, it reaches
nothing but its direct successors. -/
theorem transGen_iff_of_closed {r : α → α → Prop} {a : α}
    (h : ∀ m t, r a m → r m t → r a t) (t : α) : TransGen r a t ↔ r a t := by
  constructor
  · intro ht
    induction ht with
    | single h => exact h
    | tail _ hmt ih => exact h _ _ ih hmt
  · exact TransGen.single

/-- Two or more steps. -/
def LongPath (r : α → α → Prop) (a c : α) : Prop :=
  ∃ m, r a m ∧ TransGen r m c

theorem reflTransGen_iff_longPath {r : α → α → Prop} (a c : α) :
    ReflTransGen r a c ↔ a = c ∨ r a c ∨ LongPath r a c := by
  constructor
  · intro h
    rcases ReflTransGen.cases_head h with h | ⟨m, ham, hmc⟩
    · exact Or.inl h
    · rcases reflTransGen_iff_eq_or_transGen.mp hmc with rfl | hmc
      · exact Or.inr (Or.inl ham)
      · exact Or.inr (Or.inr ⟨m, ham, hmc⟩)
  · rintro (rfl | h | ⟨m, ham, hmc⟩)
    · exact ReflTransGen.refl
    · exact ReflTransGen.single h
    · exact ReflTransGen.head ham hmc.to_reflTransGen

end Qvd.AcyclicRelation
