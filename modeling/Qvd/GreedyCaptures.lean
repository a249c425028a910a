import Mathlib.Data.List.Basic
import Mathlib.Order.Lattice
import Mathlib.Data.List.Lex
import Mathlib.Data.List.TakeWhile

/-!
Patterns made of literal texts and of runs of allowed letters, matched the way a backtracking
engine does: every run is tried at its longest first. Of all the ways in which a text fits a
pattern, the captures it finds are those whose lengths come last in the lexicographic order.
-/
namespace Qvd.GreedyCaptures

variable {α : Type*}

inductive Part (α : Type*)
  | literal (text : List α)
  | run (ok : α → Bool)

/-- The first match in the engine's order, as the texts its runs have taken. What is left of
the text has to satisfy the anchor at the end. -/
def captures [BEq α] (atEnd : List α → Bool) : List (Part α) → List α → Option (List (List α))
  | [], x => if atEnd x then some [] else none
  | .literal t :: parts, x => (x.dropPrefix? t).bind (captures atEnd parts)
  | .run ok :: parts, x =>
      (List.range ((x.takeWhile ok).length + 1)).reverse.findSome? fun k =>
        (captures atEnd parts (x.drop k)).map (x.take k :: ·)

/-- The captures, put in place of the runs, give the text. -/
inductive Fits (atEnd : List α → Bool) : List (Part α) → List (List α) → List α → Prop
  | done {x : List α} (h : atEnd x = true) : Fits atEnd [] [] x
  | literal (t : List α) {parts : List (Part α)} {cs : List (List α)} {x : List α}
      (h : Fits atEnd parts cs x) : Fits atEnd (.literal t :: parts) cs (t ++ x)
  | run {ok : α → Bool} {parts : List (Part α)} {c : List α} {cs : List (List α)} {x : List α}
      (hc : ∀ a ∈ c, ok a = true) (h : Fits atEnd parts cs x) :
      Fits atEnd (.run ok :: parts) (c :: cs) (c ++ x)

def lengths (cs : List (List α)) : List ℕ := cs.map List.length

/-- The captures of a fit that no other fit comes after. -/
def Greatest (atEnd : List α → Bool) (parts : List (Part α)) (cs : List (List α))
    (x : List α) : Prop :=
  Fits atEnd parts cs x ∧ ∀ cs', Fits atEnd parts cs' x → lengths cs' ≤ lengths cs

variable {atEnd : List α → Bool} {parts : List (Part α)} {cs cs' : List (List α)} {x : List α}

theorem fits_literal_iff {t : List α} :
    Fits atEnd (.literal t :: parts) cs x ↔ ∃ y, x = t ++ y ∧ Fits atEnd parts cs y := by
  constructor
  · intro h
    cases h with
    | literal _ h => exact ⟨_, rfl, h⟩
  · rintro ⟨y, rfl, h⟩
    exact .literal t h

/-- A fit needs its anchor at an end of the text only. -/
theorem Fits.mono {atEnd' : List α → Bool} (h : Fits atEnd parts cs x)
    (himp : ∀ y, y <:+ x → atEnd y = true → atEnd' y = true) : Fits atEnd' parts cs x := by
  induction h with
  | done hend => exact .done (himp _ (List.suffix_refl _) hend)
  | literal t _ ih => exact .literal t (ih fun y hy => himp y (hy.trans (List.suffix_append t _)))
  | @run _ _ c _ _ hc _ ih =>
    exact .run hc (ih fun y hy => himp y (hy.trans (List.suffix_append c _)))

/-! ### The order of the trials -/

theorem findSome?_reverse_range {β : Type*} {f : ℕ → Option β} {n : ℕ} {b : β} :
    (List.range n).reverse.findSome? f = some b ↔
      ∃ k, k < n ∧ f k = some b ∧ ∀ j, k < j → j < n → f j = none := by
  induction n with
  | zero => simp
  | succ n ih =>
    rw [List.range_succ, List.reverse_append, List.reverse_singleton, List.singleton_append,
      List.findSome?_cons]
    cases hf : f n with
    | some d =>
      constructor
      · intro h
        exact ⟨n, by omega, hf.trans h, fun j hj hn => by omega⟩
      · rintro ⟨k, hk, hb, hlast⟩
        rcases Nat.lt_succ_iff_lt_or_eq.mp hk with hlt | rfl
        · have hnone := hlast n hlt (by omega)
          rw [hf] at hnone
          exact absurd hnone (by simp)
        · exact hf.symm.trans hb
    | none =>
      refine ih.trans ⟨?_, ?_⟩
      · rintro ⟨k, hk, hb, hlast⟩
        refine ⟨k, by omega, hb, fun j hkj hj => ?_⟩
        rcases Nat.lt_succ_iff_lt_or_eq.mp hj with hlt | rfl
        · exact hlast j hkj hlt
        · exact hf
      · rintro ⟨k, hk, hb, hlast⟩
        have hne : k ≠ n := by
          rintro rfl
          rw [hf] at hb
          exact absurd hb (by simp)
        exact ⟨k, by omega, hb, fun j hkj hj => hlast j hkj (by omega)⟩

/-- A trial that succeeds is the one taken, or a longer one is. -/
theorem exists_findSome?_reverse_range {β : Type*} {f : ℕ → Option β} {n j : ℕ} {b : β}
    (hj : j < n) (hb : f j = some b) :
    ∃ k d, j ≤ k ∧ k < n ∧ f k = some d ∧ (List.range n).reverse.findSome? f = some d := by
  cases hfind : (List.range n).reverse.findSome? f with
  | none =>
    have hnone := List.findSome?_eq_none_iff.mp hfind j (by simpa using hj)
    rw [hb] at hnone
    exact absurd hnone (by simp)
  | some d =>
    obtain ⟨k, hk, hd, hlast⟩ := findSome?_reverse_range.mp hfind
    refine ⟨k, d, ?_, hk, hd, rfl⟩
    by_contra hlt
    have hnone := hlast j (by omega) hj
    rw [hb] at hnone
    exact absurd hnone (by simp)

/-! ### Runs of allowed letters -/

theorem allowed_of_take {ok : α → Bool} {k : ℕ} (h : k ≤ (x.takeWhile ok).length) :
    ∀ a ∈ x.take k, ok a = true := by
  intro a ha
  have htake : x.take k = (x.takeWhile ok).take k := by
    conv_lhs => rw [← List.takeWhile_append_dropWhile (p := ok) (l := x)]
    exact List.take_append_of_le_length h
  rw [htake] at ha
  exact List.mem_takeWhile_imp (List.mem_of_mem_take ha)

theorem length_le_takeWhile {ok : α → Bool} {c : List α} (hc : ∀ a ∈ c, ok a = true) :
    c.length ≤ ((c ++ x).takeWhile ok).length := by
  rw [List.takeWhile_append_of_pos hc, List.length_append]
  omega

/-! ### What the engine finds -/

variable [BEq α] [LawfulBEq α]

theorem fits_of_captures (h : captures atEnd parts x = some cs) : Fits atEnd parts cs x := by
  induction parts generalizing x cs with
  | nil =>
    rw [captures, Option.ite_none_right_eq_some] at h
    obtain ⟨hend, hcs⟩ := h
    cases hcs
    exact .done hend
  | cons part parts ih =>
    cases part with
    | literal t =>
      obtain ⟨y, hy, hrest⟩ := Option.bind_eq_some_iff.mp h
      obtain ⟨t', rfl, ht⟩ := List.dropPrefix?_eq_some_iff.mp hy
      cases eq_of_beq ht
      exact .literal t (ih hrest)
    | run ok =>
      obtain ⟨k, hk, hrest, -⟩ := findSome?_reverse_range.mp h
      obtain ⟨ds, hds, rfl⟩ := Option.map_eq_some_iff.mp hrest
      have hfit := Fits.run (allowed_of_take (Nat.lt_succ_iff.mp hk)) (ih hds)
      rwa [List.take_append_drop] at hfit

theorem exists_captures (h : Fits atEnd parts cs x) :
    ∃ ds, captures atEnd parts x = some ds ∧ lengths cs ≤ lengths ds := by
  induction h with
  | done hend => exact ⟨[], by rw [captures, if_pos hend], le_refl _⟩
  | literal t _ ih =>
    obtain ⟨ds, hds, hle⟩ := ih
    refine ⟨ds, ?_, hle⟩
    rw [captures, List.dropPrefix?_append_of_beq _ (beq_self_eq_true t)]
    exact hds
  | @run ok parts c cs x hc _ ih =>
    obtain ⟨ds, hds, hle⟩ := ih
    have hlen := length_le_takeWhile (x := x) hc
    have htry : (captures atEnd parts ((c ++ x).drop c.length)).map
        ((c ++ x).take c.length :: ·) = some (c :: ds) := by
      rw [List.drop_left, List.take_left, hds]
      rfl
    obtain ⟨k, es, hck, hk, hes, hfind⟩ := exists_findSome?_reverse_range
      (f := fun k => (captures atEnd parts ((c ++ x).drop k)).map ((c ++ x).take k :: ·))
      (Nat.lt_succ_of_le hlen) htry
    refine ⟨es, hfind, ?_⟩
    rcases Nat.eq_or_lt_of_le hck with rfl | hlt
    · have heq := Option.some.inj (htry.symm.trans hes)
      rw [← heq]
      exact List.cons_le_cons _ hle
    · -- a longer first run decides the comparison
      obtain ⟨fs, -, rfl⟩ := Option.map_eq_some_iff.mp hes
      have hfirst : ((c ++ x).take k).length = k := by
        refine List.length_take_of_le ?_
        have hprefix := (List.takeWhile_prefix (l := c ++ x) ok).length_le
        omega
      refine le_of_lt (List.cons_lt_cons_iff.mpr (.inl ?_))
      rw [hfirst]
      exact hlt

omit [BEq α] [LawfulBEq α] in
/-- The lengths of the captures say which they are. -/
theorem Fits.unique (h : Fits atEnd parts cs x) (h' : Fits atEnd parts cs' x)
    (hlen : lengths cs = lengths cs') : cs = cs' := by
  induction h generalizing cs' with
  | done _ =>
    cases h'
    rfl
  | literal t h ih =>
    generalize hy : t ++ _ = y at h'
    cases h' with
    | literal _ h' =>
      cases List.append_cancel_left hy
      exact ih h' hlen
  | @run ok parts c cs x hc h ih =>
    generalize hy : c ++ x = y at h'
    cases h' with
    | @run _ _ c' cs' x' hc' h' =>
      obtain ⟨hfirst, hrest⟩ := List.cons.inj hlen
      obtain ⟨rfl, rfl⟩ := List.append_inj hy hfirst
      rw [ih h' hrest]

/-- The engine's match is the greatest fit. -/
theorem captures_eq_some_iff : captures atEnd parts x = some cs ↔ Greatest atEnd parts cs x := by
  constructor
  · intro h
    refine ⟨fits_of_captures h, fun cs' hfit => ?_⟩
    obtain ⟨ds, hds, hle⟩ := exists_captures hfit
    cases Option.some.inj (h.symm.trans hds)
    exact hle
  · rintro ⟨hfit, hgreatest⟩
    obtain ⟨ds, hds, hle⟩ := exists_captures hfit
    have hfit' := fits_of_captures hds
    rw [hds, hfit.unique hfit' (le_antisymm hle (hgreatest ds hfit'))]

/-- There is no match only where nothing fits. -/
theorem captures_eq_none_iff : captures atEnd parts x = none ↔ ∀ cs, ¬ Fits atEnd parts cs x := by
  constructor
  · intro h cs hfit
    obtain ⟨ds, hds, -⟩ := exists_captures hfit
    rw [h] at hds
    exact absurd hds (by simp)
  · intro h
    cases hcaptures : captures atEnd parts x with
    | none => rfl
    | some cs => exact absurd (fits_of_captures hcaptures) (h cs)

end Qvd.GreedyCaptures
