import Mathlib.Data.List.DropRight
import Mathlib.Data.List.Basic

/-!
Texts read line by line, in the terms of the regular expressions that take them apart: white
space, words, trimming, the line up to the next line feed. A text is a list of characters;
bytes are the characters below 256, and the classes are those of bytes.
-/
namespace Qvd.LineText

abbrev Text := List Char

instance : LawfulBEq Text := inferInstance

/-- `\s`. -/
def isSpace (c : Char) : Bool :=
  c == ' ' || c == '\t' || c == '\n' || c == '\r' || c == '\x0c' || c == '\x0b'

/-- `\w`. -/
def isWord (c : Char) : Bool := c.isAlphanum || c == '_'

/-- A token as the standard has it: visible ASCII characters but the separators. -/
def isTokenChar (c : Char) : Bool :=
  33 ≤ c.toNat && c.toNat ≤ 126 && !"()<>@,;:\\\"/[]?=\x7b\x7d".toList.contains c

def trimLeft (s : Text) : Text := s.dropWhile isSpace

def trimRight (s : Text) : Text := s.rdropWhile isSpace

def trim (s : Text) : Text := trimRight (trimLeft s)

/-- The text before the first line feed and the text after it. -/
def splitLine : Text → Option (Text × Text)
  | [] => none
  | c :: cs =>
    if c = '\n' then some ([], cs) else (splitLine cs).map fun p => (c :: p.1, p.2)

/-- What `s/\r?\n$//` leaves of a line, given without its line feed. -/
def dropCr (line : Text) : Text :=
  if line.getLast? = some '\r' then line.dropLast else line

/-- The lines of a text; the line feed at its end does not start another. -/
def lines : Text → List Text
  | [] => []
  | '\n' :: cs => [] :: lines cs
  | c :: cs =>
    match lines cs with
    | [] => [[c]]
    | l :: ls => (c :: l) :: ls

section Lines

variable {s line rest : Text} {c : Char}

theorem splitLine_append (h : '\n' ∉ line) (rest : Text) :
    splitLine (line ++ '\n' :: rest) = some (line, rest) := by
  induction line with
  | nil => rfl
  | cons c line ih =>
    simp only [List.mem_cons, not_or] at h
    obtain ⟨hc, hline⟩ := h
    simp [splitLine, Ne.symm hc, ih hline]

theorem splitLine_eq_some (h : splitLine s = some (line, rest)) :
    '\n' ∉ line ∧ s = line ++ '\n' :: rest := by
  induction s generalizing line with
  | nil => simp [splitLine] at h
  | cons c s ih =>
    simp only [splitLine] at h
    split at h
    · rename_i hc
      obtain ⟨rfl, rfl⟩ := Prod.mk.inj (Option.some.inj h)
      exact ⟨List.not_mem_nil, hc ▸ rfl⟩
    · rename_i hc
      obtain ⟨p, hp, h⟩ := Option.map_eq_some_iff.mp h
      obtain ⟨rfl, rfl⟩ := Prod.mk.inj h
      obtain ⟨hmem, rfl⟩ := ih hp
      exact ⟨by simp [Ne.symm hc, hmem], rfl⟩

theorem length_of_splitLine (h : splitLine s = some (line, rest)) :
    rest.length < s.length := by
  obtain ⟨-, rfl⟩ := splitLine_eq_some h
  simp only [List.length_append, List.length_cons]
  omega

theorem dropCr_append (line : Text) : dropCr (line ++ ['\r']) = line := by
  simp [dropCr]

theorem lines_of_not_mem (h : '\n' ∉ s) (hs : s ≠ []) : lines s = [s] := by
  induction s with
  | nil => exact absurd rfl hs
  | cons c s ih =>
    simp only [List.mem_cons, not_or] at h
    obtain ⟨hc, hmem⟩ := h
    cases s with
    | nil => simp [lines, Ne.symm hc]
    | cons d s =>
      rw [lines.eq_3 c (d :: s) (Ne.symm hc), ih hmem (List.cons_ne_nil _ _)]

/-- A text made of lines has them for its lines. -/
theorem lines_flatMap {ls : List Text} (h : ∀ l ∈ ls, '\n' ∉ l) :
    lines (ls.flatMap fun l => l ++ ['\n']) = ls := by
  have happend (l rest : Text) (hl : '\n' ∉ l) : lines (l ++ '\n' :: rest) = l :: lines rest := by
    induction l with
    | nil => rfl
    | cons c l ih =>
      rw [List.mem_cons, not_or] at hl
      rw [List.cons_append, lines.eq_3 c _ (Ne.symm hl.1), ih hl.2]
  induction ls with
  | nil => rfl
  | cons l ls ih =>
    rw [List.flatMap_cons, List.append_assoc, List.singleton_append,
      happend l _ (h l List.mem_cons_self), ih fun l' hl' => h l' (List.mem_cons_of_mem l hl')]

theorem lines_line_feed (h : '\n' ∉ s) : lines (s ++ ['\n']) = [s] := by
  have hlines : lines ([s].flatMap fun l => l ++ ['\n']) = [s] :=
    lines_flatMap (List.forall_mem_singleton.mpr h)
  rwa [List.flatMap_singleton] at hlines

end Lines

/-! ### Trimming -/

section Trim

variable {s : Text} {c : Char}

theorem trimLeft_cons_of_space (h : isSpace c = true) : trimLeft (c :: s) = trimLeft s := by
  simp [trimLeft, h]

theorem trimLeft_cons_of_not (h : isSpace c = false) : trimLeft (c :: s) = c :: s := by
  simp [trimLeft, h]

theorem trim_cons_of_space (h : isSpace c = true) : trim (c :: s) = trim s := by
  rw [trim, trimLeft_cons_of_space h, trim]

/-- A text without white space at its ends is its own trimming. -/
theorem trim_eq_self (hhead : ∀ c, s.head? = some c → isSpace c = false)
    (hlast : ∀ c, s.getLast? = some c → isSpace c = false) : trim s = s := by
  have hleft : trimLeft s = s := by
    cases s with
    | nil => rfl
    | cons c s => exact trimLeft_cons_of_not (hhead c rfl)
  rw [trim, hleft, trimRight, List.rdropWhile_eq_self_iff]
  intro hs
  simpa using hlast _ (List.getLast?_eq_getLast_of_ne_nil hs)

/-- A class without the six white space characters has none. -/
theorem not_space_of (p : Char → Bool)
    (hp : [' ', '\t', '\n', '\r', '\x0c', '\x0b'].any p = false) (h : p c = true) :
    isSpace c = false := by
  by_contra hs
  have hs : isSpace c = true := by simpa using hs
  simp only [isSpace, Bool.or_eq_true, beq_iff_eq] at hs
  have hmem : c ∈ [' ', '\t', '\n', '\r', '\x0c', '\x0b'] := by
    rcases hs with ((((rfl | rfl) | rfl) | rfl) | rfl) | rfl <;> decide
  exact absurd h (List.any_eq_false.mp hp c hmem)

theorem isDigit_not_space (h : c.isDigit = true) : isSpace c = false :=
  not_space_of Char.isDigit (by decide) h

theorem isTokenChar_not_space (h : isTokenChar c = true) : isSpace c = false :=
  not_space_of isTokenChar (by decide) h

theorem isTokenChar_ne_colon (h : isTokenChar c = true) : c ≠ ':' := by
  rintro rfl
  exact absurd h (by decide)

theorem isTokenChar_not_newline (h : ∀ c ∈ s, isTokenChar c = true) : '\n' ∉ s :=
  fun hmem => absurd (h _ hmem) (by decide)

end Trim

end Qvd.LineText
