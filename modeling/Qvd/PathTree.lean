import Mathlib.Data.List.Basic
import Mathlib.Logic.Function.Basic

/-!
Trees of nested hashes that hold a value for each of some paths. A hash that has a value of its
own keeps it under a blank key. The tree of some paths, found in the order in which they are
stored, is one and the same.
-/
namespace Qvd.PathTree

/-- What stands under a key of a hash. -/
inductive Tree (K V : Type*)
  | undef
  | scalar (value : V)
  | hash (entries : K → Tree K V)

section Storing

variable {K V : Type*} [DecidableEq K] (blank : K)

/-- The entries to go on with: a value moves under the blank key. -/
def entriesOf : Tree K V → K → Tree K V
  | .undef => fun _ => .undef
  | .scalar old => Function.update (fun _ => .undef) blank (.scalar old)
  | .hash entries => entries

/-- A value at the end of a path: that of a hash is its blank entry. -/
def putValue (value : V) : Tree K V → Tree K V
  | .hash entries => .hash (Function.update entries blank (.scalar value))
  | _ => .scalar value

/-- The entries with a value stored at a path. -/
def store (value : V) : (K → Tree K V) → List K → (K → Tree K V)
  | entries, [] => entries
  | entries, [part] => Function.update entries part (putValue blank value (entries part))
  | entries, part :: next :: parts =>
    Function.update entries part
      (.hash (store value (entriesOf blank (entries part)) (next :: parts)))

/-- What is found along a path. -/
def find : Tree K V → List K → Tree K V
  | t, [] => t
  | .hash entries, part :: parts => find (entries part) parts
  | _, _ :: _ => (.undef)

/-- The blank entry of a hash with a value or with none. -/
def own : Option V → Tree K V
  | none => .undef
  | some value => .scalar value

/-- The tree of the values at some paths. -/
def Represents : Tree K V → (List K → Option V) → Prop
  | .undef, values => ∀ path, values path = none
  | .scalar value, values => values [] = some value ∧ ∀ part path, values (part :: path) = none
  | .hash entries, values => (∃ part path, values (part :: path) ≠ none) ∧
      entries blank = own (values []) ∧
      ∀ part, part ≠ blank → Represents (entries part) fun path => values (part :: path)

/-- The entries for the values at some paths. -/
def Stores (entries : K → Tree K V) (values : List K → Option V) : Prop :=
  entries blank = own (values []) ∧
    ∀ part, part ≠ blank → Represents blank (entries part) fun path => values (part :: path)

end Storing

section Representation

variable {K V : Type*} {blank : K} {entries others : K → Tree K V} {t u : Tree K V}
  {values : List K → Option V}

theorem stores_empty : Stores blank (fun _ : K => (.undef : Tree K V)) fun _ => none :=
  ⟨rfl, fun _ _ _ => rfl⟩

theorem represents_undef : Represents blank (.undef : Tree K V) values ↔
    ∀ path, values path = none := Iff.rfl

theorem represents_scalar {value : V} : Represents blank (.scalar value : Tree K V) values ↔
    values [] = some value ∧ ∀ part path, values (part :: path) = none := Iff.rfl

/-- Values at some paths have one tree. -/
theorem represents_unique (ht : Represents blank t values) (hu : Represents blank u values) :
    t = u := by
  induction t generalizing u values with
  | undef =>
    cases u with
    | undef => rfl
    | scalar value => cases (ht []).symm.trans hu.1
    | hash others =>
      obtain ⟨part, path, hne⟩ := hu.1
      exact absurd (ht _) hne
  | scalar value =>
    cases u with
    | undef => cases (hu []).symm.trans ht.1
    | scalar value' => rw [Option.some.inj (hu.1.symm.trans ht.1)]
    | hash others =>
      obtain ⟨part, path, hne⟩ := hu.1
      exact absurd (ht.2 part path) hne
  | hash entries ih =>
    cases u with
    | undef =>
      obtain ⟨part, path, hne⟩ := ht.1
      exact absurd (hu _) hne
    | scalar value =>
      obtain ⟨part, path, hne⟩ := ht.1
      exact absurd (hu.2 part path) hne
    | hash others =>
      congr 1
      funext part
      by_cases hblank : part = blank
      · subst hblank
        rw [ht.2.1, hu.2.1]
      · exact ih part (ht.2.2 part hblank) (hu.2.2 part hblank)

theorem stores_unique (h : Stores blank entries values) (h' : Stores blank others values) :
    entries = others := by
  funext part
  by_cases hblank : part = blank
  · subst hblank
    rw [h.1, h'.1]
  · exact represents_unique (h.2 part hblank) (h'.2 part hblank)

variable [DecidableEq K]

theorem Represents.entriesOf (h : Represents blank t values) :
    Stores blank (entriesOf blank t) values := by
  cases t with
  | undef => exact ⟨congrArg own (h []).symm, fun part _ path => h (part :: path)⟩
  | scalar old =>
    refine ⟨?_, fun part hne => ?_⟩
    · rw [PathTree.entriesOf, Function.update_self]
      exact congrArg own h.1.symm
    · rw [PathTree.entriesOf, Function.update_of_ne hne]
      exact fun path => h.2 part path
  | hash entries => exact h.2

theorem Represents.putValue (h : Represents blank t values) (value : V) :
    Represents blank (putValue blank value t) (Function.update values [] (some value)) := by
  have hother : ∀ part path, Function.update values [] (some value) (part :: path) =
      values (part :: path) := fun part path => Function.update_of_ne (List.cons_ne_nil _ _) ..
  cases t with
  | undef => exact ⟨Function.update_self .., fun part path => (hother part path).trans (h _)⟩
  | scalar old =>
    exact ⟨Function.update_self .., fun part path => (hother part path).trans (h.2 part path)⟩
  | hash entries =>
    obtain ⟨⟨part, path, hne⟩, -, hentries⟩ := h
    refine ⟨⟨part, path, by rwa [hother]⟩, ?_, fun part hpart => ?_⟩
    · rw [Function.update_self, Function.update_self]
      rfl
    · rw [Function.update_of_ne hpart]
      simpa only [hother] using hentries part hpart

/-- A new tree under one key. -/
theorem Stores.update {part : K} (h : Stores blank entries values) (hpart : part ≠ blank)
    {path : List K} {value : V}
    (ht : Represents blank t
      (Function.update (fun rest => values (part :: rest)) path (some value))) :
    Stores blank (Function.update entries part t)
      (Function.update values (part :: path) (some value)) := by
  refine ⟨?_, fun key hkey => ?_⟩
  · rw [Function.update_of_ne hpart.symm, Function.update_of_ne (List.cons_ne_nil _ _).symm]
    exact h.1
  · by_cases hsame : key = part
    · subst hsame
      rw [Function.update_self]
      convert ht using 1
      funext rest
      simp [Function.update_apply]
    · rw [Function.update_of_ne hsame]
      have hother : ∀ rest, Function.update values (part :: path) (some value) (key :: rest) =
          values (key :: rest) :=
        fun rest => Function.update_of_ne (fun heq => hsame (List.cons.inj heq).1) ..
      simpa only [hother] using h.2 key hkey

/-- Storing a value gives the tree with it. -/
theorem Stores.store {path : List K} (h : Stores blank entries values) (hne : path ≠ [])
    (hplain : blank ∉ path) (value : V) :
    Stores blank (store blank value entries path) (Function.update values path (some value)) := by
  induction path generalizing entries values with
  | nil => exact absurd rfl hne
  | cons part path ih =>
    obtain ⟨hpart, hplain⟩ := not_or.mp (mt List.mem_cons.mpr hplain)
    cases path with
    | nil => exact h.update (Ne.symm hpart) ((h.2 part (Ne.symm hpart)).putValue value)
    | cons next path =>
      have hinner := ih (h.2 part (Ne.symm hpart)).entriesOf (List.cons_ne_nil _ _) hplain
      refine h.update (Ne.symm hpart) ⟨⟨next, path, ?_⟩, hinner⟩
      rw [Function.update_self]
      exact Option.some_ne_none value

end Representation

/-! ### What is found -/

section Finding

variable {K V : Type*} {blank : K} {entries : K → Tree K V} {t : Tree K V}
  {values : List K → Option V} {path : List K} {value : V}

/-- A path that goes on to a value. -/
def GoesOn (values : List K → Option V) (path : List K) : Prop :=
  ∃ part rest, values (path ++ part :: rest) ≠ none

@[simp] theorem find_undef (path : List K) : find (.undef : Tree K V) path = .undef := by
  cases path <;> rfl

theorem find_own {o : Option V} (h : find (own o : Tree K V) path = .scalar value) :
    path = [] ∧ o = some value := by
  cases o with
  | none => rw [own, find_undef] at h; cases h
  | some old =>
    cases path with
    | nil => exact ⟨rfl, congrArg some (Tree.scalar.inj h)⟩
    | cons part path => cases h

theorem Represents.find_leaf (h : Represents blank t values) (hplain : blank ∉ path)
    (hvalue : values path = some value) (hend : ¬GoesOn values path) :
    find t path = .scalar value := by
  induction path generalizing t values with
  | nil =>
    cases t with
    | undef => cases (h []).symm.trans hvalue
    | scalar old => rw [find, Option.some.inj (h.1.symm.trans hvalue)]
    | hash entries => exact absurd h.1 hend
  | cons part path ih =>
    obtain ⟨hpart, hplain⟩ := not_or.mp (mt List.mem_cons.mpr hplain)
    cases t with
    | undef => cases (h (part :: path)).symm.trans hvalue
    | scalar old => cases (h.2 part path).symm.trans hvalue
    | hash entries => exact ih (h.2.2 part (Ne.symm hpart)) hplain hvalue hend

theorem Represents.find_inner (h : Represents blank t values) (hplain : blank ∉ path)
    (hvalue : values path = some value) (hon : GoesOn values path) :
    find t (path ++ [blank]) = .scalar value := by
  induction path generalizing t values with
  | nil =>
    obtain ⟨part, rest, hne⟩ := hon
    cases t with
    | undef => exact absurd (h _) hne
    | scalar old => exact absurd (h.2 part rest) hne
    | hash entries =>
      rw [List.nil_append, find, find, h.2.1, hvalue, own]
  | cons part path ih =>
    obtain ⟨hpart, hplain⟩ := not_or.mp (mt List.mem_cons.mpr hplain)
    cases t with
    | undef => cases (h (part :: path)).symm.trans hvalue
    | scalar old => cases (h.2 part path).symm.trans hvalue
    | hash entries => exact ih (h.2.2 part (Ne.symm hpart)) hplain hvalue hon

/-- A value that is found is one of those stored, at the place it has. -/
theorem Represents.of_find_scalar (h : Represents blank t values)
    (hfound : find t path = .scalar value) :
    ∃ stored, values stored = some value ∧
      (¬GoesOn values stored ∧ path = stored ∨ GoesOn values stored ∧ path = stored ++ [blank]) := by
  induction path generalizing t values with
  | nil =>
    rw [find] at hfound
    subst hfound
    exact ⟨[], h.1, .inl ⟨fun ⟨part, rest, hne⟩ => hne (h.2 part rest), rfl⟩⟩
  | cons part path ih =>
    cases t with
    | undef => rw [find_undef] at hfound; cases hfound
    | scalar old => cases hfound
    | hash entries =>
      rw [find] at hfound
      by_cases hblank : part = blank
      · subst hblank
        rw [h.2.1] at hfound
        obtain ⟨rfl, hvalue⟩ := find_own hfound
        exact ⟨[], hvalue, .inr ⟨h.1, rfl⟩⟩
      · obtain ⟨stored, hvalue, hplace⟩ := ih (h.2.2 part hblank) hfound
        refine ⟨part :: stored, hvalue, hplace.imp ?_ ?_⟩
        · exact fun hleaf => ⟨hleaf.1, congrArg (part :: ·) hleaf.2⟩
        · exact fun hinner => ⟨hinner.1, congrArg (part :: ·) hinner.2⟩

/-- A hash stands only where a path goes on. -/
theorem Represents.of_find_hash (h : Represents blank t values)
    (hfound : find t path = .hash entries) : GoesOn values path := by
  induction path generalizing t values with
  | nil =>
    rw [find] at hfound
    subst hfound
    exact h.1
  | cons part path ih =>
    cases t with
    | undef => rw [find_undef] at hfound; cases hfound
    | scalar old => cases hfound
    | hash inner =>
      rw [find] at hfound
      by_cases hblank : part = blank
      · subst hblank
        rw [h.2.1] at hfound
        cases hown : values [] with
        | none => rw [hown, own, find_undef] at hfound; cases hfound
        | some value =>
          rw [hown, own] at hfound
          cases path <;> cases hfound
      · exact ih (h.2.2 part hblank) hfound

end Finding

end Qvd.PathTree
