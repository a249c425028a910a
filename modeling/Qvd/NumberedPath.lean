import Mathlib.Data.List.Basic
import Mathlib.Data.List.Count
import Qvd.LineText

/-!
Textual paths: names with an occurrence number in brackets, joined by a separator of two
equal characters. Splitting is leftmost and drops trailing empty components; reading a
component takes the number off its end when there is one. Both undo the writing of a path
as long as its names have no separator and no line break in them.
-/
namespace Qvd.NumberedPath

abbrev Text := List Char

section Split

/-- Does the text have two colons in a row? -/
def hasSep : Text → Bool
  | ':' :: ':' :: _ => true
  | _ :: rest => hasSep rest
  | [] => false

/-- The parts between separators, the leftmost first. -/
def parts : Text → List Text
  | ':' :: ':' :: rest => [] :: parts rest
  | c :: rest =>
    match parts rest with
    | [] => [[c]]
    | part :: others => (c :: part) :: others
  | [] => [[]]

def dropTrailingEmpty (names : List Text) : List Text :=
  (names.reverse.dropWhile (fun name => name.isEmpty)).reverse

/-- Splitting leaves out empty parts at the end. -/
def splitPath (path : Text) : List Text :=
  dropTrailingEmpty (parts path)

def joinPath (names : List Text) : Text :=
  List.intercalate [':', ':'] names

theorem parts_cons (c : Char) (rest : Text) (h : c = ':' → ∀ tail, rest ≠ ':' :: tail) :
    parts (c :: rest) = match parts rest with
      | [] => [[c]]
      | part :: others => (c :: part) :: others := by
  rw [parts.eq_2]
  exact fun tail hc hrest => h hc tail hrest

theorem hasSep_cons (c : Char) (rest : Text) (h : c = ':' → ∀ tail, rest ≠ ':' :: tail) :
    hasSep (c :: rest) = hasSep rest := by
  rw [hasSep.eq_2]
  exact fun tail hc hrest => h hc tail hrest

/-- A text without separators has no colon before a colon. -/
theorem not_colons {c : Char} {rest : Text} (h : hasSep (c :: rest) = false) :
    c = ':' → ∀ tail, rest ≠ ':' :: tail := by
  intro hc tail hrest
  subst hc hrest
  cases h

theorem hasSep_tail {c : Char} {rest : Text} (h : hasSep (c :: rest) = false) :
    hasSep rest = false := by
  rwa [hasSep_cons c rest (not_colons h)] at h

theorem parts_of_noSep (text : Text) (h : hasSep text = false) : parts text = [text] := by
  induction text with
  | nil => rfl
  | cons c rest ih =>
    rw [parts_cons c rest (not_colons h), ih (hasSep_tail h)]

/-- A part is split off when neither it nor a colon after it makes up a separator. -/
theorem parts_append (name path : Text) (h : hasSep (name ++ [':']) = false) :
    parts (name ++ ':' :: ':' :: path) = name :: parts path := by
  induction name with
  | nil => rfl
  | cons c rest ih =>
    have hcolons := not_colons h
    have hnot : c = ':' → ∀ tail, rest ++ ':' :: ':' :: path ≠ ':' :: tail := by
      intro hc tail htail
      cases rest with
      | nil => exact hcolons hc [] rfl
      | cons d rest =>
        have hd : d = ':' := (List.cons.inj htail).1
        exact hcolons hc (rest ++ [':']) (by rw [hd]; rfl)
    rw [List.cons_append, parts_cons c _ hnot, ih (hasSep_tail h)]

/-- Names without separators come back from the path they make. -/
theorem parts_joinPath (names : List Text) (hne : names ≠ [])
    (h : ∀ name ∈ names, hasSep (name ++ [':']) = false ∧ hasSep name = false) :
    parts (joinPath names) = names := by
  induction names with
  | nil => exact absurd rfl hne
  | cons name rest ih =>
    cases rest with
    | nil =>
      have hjoin : joinPath [name] = name := by
        simp [joinPath, List.intercalate]
      rw [hjoin]
      exact parts_of_noSep name (h name List.mem_cons_self).2
    | cons next rest =>
      have hrest := ih (List.cons_ne_nil next rest)
        (fun n hn => h n (List.mem_cons_of_mem name hn))
      have hjoin : joinPath (name :: next :: rest) =
          name ++ ':' :: ':' :: joinPath (next :: rest) := by
        simp [joinPath, List.intercalate]
      rw [hjoin, parts_append name _ (h name List.mem_cons_self).1, hrest]

theorem hasSep_of_not_mem (text : Text) (h : ':' ∉ text) : hasSep text = false := by
  induction text with
  | nil => rfl
  | cons c rest ih =>
    obtain ⟨hc, hrest⟩ := not_or.mp (fun hmem => h (List.mem_cons.mpr hmem))
    rw [hasSep_cons c rest (fun hc' => absurd hc'.symm hc)]
    exact ih hrest

/-- No separator goes over a character that is not a colon. -/
theorem hasSep_append (a b : Text) (c : Char) (hc : c ≠ ':') (ha : hasSep a = false)
    (hb : hasSep b = false) : hasSep (a ++ c :: b) = false := by
  induction a with
  | nil =>
    rw [List.nil_append, hasSep_cons c b (fun h => absurd h hc)]
    exact hb
  | cons d rest ih =>
    have hcolons := not_colons ha
    rw [List.cons_append, hasSep_cons d _ ?_]
    · exact ih (hasSep_tail ha)
    · intro hd tail htail
      cases rest with
      | nil => exact hc (List.cons.inj htail).1
      | cons e rest =>
        have he : e = ':' := (List.cons.inj htail).1
        exact hcolons hd rest (by rw [he])

theorem hasSep_of_append (a b : Text) (h : hasSep (a ++ b) = false) : hasSep a = false := by
  induction a with
  | nil => rfl
  | cons c rest ih =>
    have hcolons := not_colons h
    rw [hasSep_cons c rest ?_]
    · exact ih (hasSep_tail h)
    · intro hc tail hrest
      exact hcolons hc (tail ++ b) (by rw [hrest]; rfl)

/-- A part that is not empty has the first character of the text. -/
theorem head_of_parts (text : Text) (c : Char) (tail : Text) (others : List Text)
    (h : parts text = (c :: tail) :: others) : ∃ rest, text = c :: rest := by
  cases text with
  | nil => simp [parts] at h
  | cons d rest =>
    by_cases hcolons : d = ':' → ∀ tail, rest ≠ ':' :: tail
    · rw [parts_cons d rest hcolons] at h
      cases hparts : parts rest with
      | nil =>
        rw [hparts] at h
        simp only [List.cons.injEq] at h
        exact ⟨rest, by rw [h.1.1]⟩
      | cons first others =>
        rw [hparts] at h
        simp only [List.cons.injEq] at h
        exact ⟨rest, by rw [h.1.1]⟩
    · simp only [Classical.not_imp, not_forall, not_not] at hcolons
      obtain ⟨hd, tail', htail⟩ := hcolons
      rw [hd, htail] at h
      simp [parts] at h

/-- Splitting leaves no separators. -/
theorem hasSep_of_mem_parts (text : Text) : ∀ part ∈ parts text, hasSep part = false := by
  induction text using parts.induct with
  | case1 rest ih =>
    intro part hpart
    rw [parts] at hpart
    rcases List.mem_cons.mp hpart with hnil | hrest
    · exact hnil ▸ rfl
    · exact ih part hrest
  | case2 c rest hcolons hparts ih =>
    intro part hpart
    rw [parts_cons c rest fun hc tail htail => hcolons tail hc htail, hparts] at hpart
    rw [List.mem_singleton.mp hpart, hasSep_cons c [] fun _ _ => List.cons_ne_nil _ _ |>.symm]
    rfl
  | case3 c rest hcolons first others hparts ih =>
    intro part hpart
    rw [parts_cons c rest fun hc tail htail => hcolons tail hc htail, hparts] at hpart
    rw [hparts] at ih
    rcases List.mem_cons.mp hpart with hfirst | hothers
    · rw [hfirst, hasSep_cons c first ?_]
      · exact ih first List.mem_cons_self
      · intro hc tail htail
        rw [htail] at hparts
        obtain ⟨rest', hrest⟩ := head_of_parts rest ':' tail others hparts
        exact hcolons rest' hc hrest
    · exact ih part (List.mem_cons_of_mem first hothers)
  | case4 =>
    intro part hpart
    rw [List.mem_singleton.mp hpart]
    rfl

theorem hasSep_of_mem_splitPath (path : Text) :
    ∀ name ∈ splitPath path, hasSep name = false := by
  intro name hname
  apply hasSep_of_mem_parts path
  rw [splitPath, dropTrailingEmpty, List.mem_reverse] at hname
  exact List.mem_reverse.mp ((List.dropWhile_sublist _).subset hname)

theorem dropTrailingEmpty_of_last (names : List Text) (last : Text) (h : last ≠ []) :
    dropTrailingEmpty (names ++ [last]) = names ++ [last] := by
  have hlast : last.isEmpty = false := by
    cases last with
    | nil => exact absurd rfl h
    | cons _ _ => rfl
  simp [dropTrailingEmpty, hlast]

end Split

section Numbered

/-- A name with an occurrence number. -/
def numbered (name : Text) (n : ℕ) : Text :=
  name ++ '[' :: (Nat.toDigits 10 n ++ [']'])

/-- A number in brackets at the end of a text, and what stands before it. -/
def endingNumber (text : Text) : Option (Text × ℕ) :=
  match text.reverse with
  | ']' :: rest =>
    match rest.dropWhile Char.isDigit with
    | '[' :: before =>
      if (rest.takeWhile Char.isDigit).isEmpty then none
      else some (before.reverse, Nat.ofDigitChars 10 (rest.takeWhile Char.isDigit).reverse 0)
    | _ => none
  | _ => none

/-- One line break at the end of a text does not count. -/
def chomp (text : Text) : Text :=
  if text.getLast? = some '\n' then text.dropLast else text

/-- Name and number of a component; the number is 1 unless there is one. A name cannot
go over a line break: then there is none, which is read as the empty text. -/
def nameAndCounter (node : Text) : Text × ℕ :=
  let read := (endingNumber (chomp node)).getD (chomp node, 1)
  if '\n' ∈ read.1 then ([], 1) else read

theorem endingNumber_numbered (name : Text) (n : ℕ) :
    endingNumber (numbered name n) = some (name, n) := by
  have hrev : (numbered name n).reverse =
      ']' :: ((Nat.toDigits 10 n).reverse ++ '[' :: name.reverse) := by
    simp [numbered]
  have hdigits : ∀ c ∈ (Nat.toDigits 10 n).reverse, c.isDigit = true := by
    intro c hc
    exact Nat.isDigit_of_mem_toDigits (by decide) (by decide) (List.mem_reverse.mp hc)
  have hbracket : Char.isDigit '[' = false := by decide
  have htake : ((Nat.toDigits 10 n).reverse ++ '[' :: name.reverse).takeWhile Char.isDigit =
      (Nat.toDigits 10 n).reverse := by
    rw [List.takeWhile_append_of_pos hdigits]
    simp [hbracket]
  have hdrop : ((Nat.toDigits 10 n).reverse ++ '[' :: name.reverse).dropWhile Char.isDigit =
      '[' :: name.reverse := by
    rw [List.dropWhile_append_of_pos hdigits]
    simp [hbracket]
  have hne : (Nat.toDigits 10 n).reverse.isEmpty = false := by
    simp [Nat.toDigits_ne_nil]
  simp only [endingNumber, hrev, htake, hdrop, hne, List.reverse_reverse,
    Nat.ofDigitChars_ten_toDigits]
  rfl

theorem chomp_numbered (name : Text) (n : ℕ) : chomp (numbered name n) = numbered name n := by
  have hlast : (numbered name n).getLast? = some ']' := by
    have happ : numbered name n = (name ++ '[' :: Nat.toDigits 10 n) ++ [']'] := by
      simp [numbered]
    rw [happ, List.getLast?_concat]
  simp [chomp, hlast]

theorem nameAndCounter_numbered (name : Text) (n : ℕ) (h : '\n' ∉ name) :
    nameAndCounter (numbered name n) = (name, n) := by
  simp [nameAndCounter, chomp_numbered, endingNumber_numbered, h]

theorem newline_not_mem_name (node : Text) : '\n' ∉ (nameAndCounter node).1 := by
  simp only [nameAndCounter]
  split
  · exact List.not_mem_nil
  · next h => exact h

theorem chomp_append (text : Text) : ∃ rest, text = chomp text ++ rest := by
  unfold chomp
  split
  · next h =>
    refine ⟨['\n'], ?_⟩
    have hne : text ≠ [] := fun hnil => by simp [hnil] at h
    rw [List.getLast?_eq_some_getLast hne, Option.some.injEq] at h
    rw [← h, List.dropLast_concat_getLast]
  · exact ⟨[], (List.append_nil text).symm⟩

theorem endingNumber_append (text name : Text) (n : ℕ)
    (h : endingNumber text = some (name, n)) : ∃ rest, text = name ++ rest := by
  unfold endingNumber at h
  split at h
  · next rest hrev =>
    split at h
    · next before hdrop =>
      split at h
      · cases h
      · rw [Option.some.injEq, Prod.mk.injEq] at h
        have htext : text = rest.reverse ++ [']'] := by
          rw [← List.reverse_reverse text, hrev, List.reverse_cons]
        have hrest := List.takeWhile_append_dropWhile (p := Char.isDigit) (l := rest)
        rw [hdrop] at hrest
        have hread : rest.reverse =
            before.reverse ++ '[' :: (rest.takeWhile Char.isDigit).reverse := by
          conv_lhs => rw [← hrest]
          simp
        refine ⟨'[' :: (rest.takeWhile Char.isDigit).reverse ++ [']'], ?_⟩
        rw [htext, hread, ← h.1]
        simp
    · cases h
  · cases h

/-- The name of a component has no separator that the component has not. -/
theorem hasSep_name (node : Text) (h : hasSep node = false) :
    hasSep (nameAndCounter node).1 = false := by
  obtain ⟨newline, hchomp⟩ := chomp_append node
  rw [hchomp] at h
  have hchomped := hasSep_of_append _ newline h
  simp only [nameAndCounter]
  split
  · rfl
  · cases hnumber : endingNumber (chomp node) with
    | none => exact hchomped
    | some read =>
      obtain ⟨name, n⟩ := read
      obtain ⟨rest, hrest⟩ := endingNumber_append (chomp node) name n hnumber
      rw [hrest] at hchomped
      exact hasSep_of_append name rest hchomped

/-- A number in brackets keeps separators out. -/
theorem hasSep_numbered (name : Text) (n : ℕ) (h : hasSep name = false) :
    hasSep (numbered name n ++ [':']) = false ∧ hasSep (numbered name n) = false := by
  have hdigits : ':' ∉ Nat.toDigits 10 n := by
    intro hmem
    have := Nat.isDigit_of_mem_toDigits (by decide) (by decide) hmem
    revert this
    decide
  have hend : ∀ rest, hasSep rest = false →
      hasSep (name ++ '[' :: (Nat.toDigits 10 n ++ ']' :: rest)) = false := by
    intro rest hrest
    apply hasSep_append name _ '[' (by decide) h
    exact hasSep_append _ rest ']' (by decide) (hasSep_of_not_mem _ hdigits) hrest
  constructor
  · have happ : numbered name n ++ [':'] =
        name ++ '[' :: (Nat.toDigits 10 n ++ ']' :: [':']) := by
      simp [numbered]
    rw [happ]
    exact hend [':'] rfl
  · exact hend [] rfl

end Numbered

end Qvd.NumberedPath
