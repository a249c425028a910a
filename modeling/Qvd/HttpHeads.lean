import Qvd.LineText

/-!
The lines of an HTTP head as the server and the client take them apart. Both use the same two
patterns, for a header and for the continuation of one; they differ in what a token is.
-/
namespace Qvd.HttpHeads

open Qvd.LineText

/-- `$token_re` of the server. -/
def serverToken (c : Char) : Bool := "!#$%&'*+_-.".toList.contains c || c.isAlphanum

/-- `$token_re` of the client, without the underscore. -/
def clientToken (c : Char) : Bool := "!#$%&'*+-.".toList.contains c || c.isAlphanum

section Patterns

variable (token : Char → Bool)

/-- `/^($token_re)\s*:\s*(.*?)\s*$/`. -/
def headerLine (line : Text) : Option (Text × Text) :=
  match line.takeWhile token, trimLeft (line.dropWhile token) with
  | c :: name, ':' :: value => some (c :: name, trim value)
  | _, _ => none

/-- `/^\s+(.*?)\s+$/`: white space is asked for at both ends. -/
def continuation (line : Text) : Option Text :=
  if line.head?.any isSpace && line.getLast?.any isSpace && 2 ≤ line.length then
    some (trim line)
  else none

/-- `"${name}:${value}"`. -/
def headerText (name value : Text) : Text := name ++ ':' :: value

/-- `$headers[-1] .= " " . $1`, where there is a header. -/
def continueHeader (headers : List Text) (text : Text) : Option (List Text) :=
  headers.getLast?.map fun last => headers.dropLast ++ [last ++ ' ' :: text]

/-- `/^KEY\s*:\s*(.*)$/` for a key that is quoted. -/
def headerValue (key header : Text) : Option Text :=
  if key.isPrefixOf header then
    match trimLeft (header.drop key.length) with
    | ':' :: value => some (trimLeft value)
    | _ => none
  else none

/-- `header_lookup`: the name as it is written, the first of several. -/
def headerLookup (headers : List Text) (key : Text) : Option Text :=
  headers.findSome? (headerValue key)

/-- The number of a text without sign, point or exponent. -/
def number (s : Text) : ℕ :=
  Nat.ofDigitChars 10 (s.takeWhile Char.isDigit) 0

end Patterns

theorem contentLength_ne_nil : "Content-Length".toList ≠ [] := by decide

theorem contentLength_token : ∀ c ∈ "Content-Length".toList, isTokenChar c = true :=
  List.all_eq_true.mp (by decide)

section Lines

variable {token : Char → Bool} {name value line : Text} {c : Char}

theorem takeWhile_append_of_all (rest : Text) (hname : ∀ c ∈ name, token c = true)
    (hrest : ∀ c, rest.head? = some c → token c = false) :
    (name ++ rest).takeWhile token = name ∧ (name ++ rest).dropWhile token = rest := by
  induction name with
  | nil =>
    cases rest with
    | nil => simp
    | cons c rest => simp [hrest c rfl]
  | cons c name ih =>
    obtain ⟨hc, hname⟩ := List.forall_mem_cons.mp hname
    simp [hc, ih hname]

/-- A header line with a name made of token characters. -/
theorem headerLine_of_name (hne : name ≠ []) (hname : ∀ c ∈ name, token c = true)
    (hcolon : token ':' = false) :
    headerLine token (name ++ ':' :: value) = some (name, trim value) := by
  obtain ⟨htake, hdrop⟩ := takeWhile_append_of_all (':' :: value) hname
    (by simpa using hcolon)
  obtain ⟨c, name, rfl⟩ := List.exists_cons_of_ne_nil hne
  rw [headerLine, htake, hdrop, trimLeft_cons_of_not (by decide)]
  rfl

/-- The first character outside the class. -/
theorem exists_first_outside (h : ∃ c ∈ name, token c = false) :
    ∃ before c after, name = before ++ c :: after ∧ token c = false ∧
      ∀ d ∈ before, token d = true := by
  induction name with
  | nil => simp at h
  | cons e name ih =>
    by_cases he : token e = true
    · obtain ⟨c, hc, hctoken⟩ := h
      have hmem : c ∈ name := by
        rcases List.mem_cons.mp hc with rfl | hmem
        · simp [he] at hctoken
        · exact hmem
      obtain ⟨before, d, after, rfl, hd, hbefore⟩ := ih ⟨c, hmem, hctoken⟩
      exact ⟨e :: before, d, after, rfl, hd, List.forall_mem_cons.mpr ⟨he, hbefore⟩⟩
    · exact ⟨[], e, name, rfl, by simpa using he, by simp⟩

/-- A character of the name outside the class ends the match. -/
theorem headerLine_eq_none (hc : c ∈ name) (htoken : token c = false)
    (hname : ∀ c ∈ name, isTokenChar c = true) :
    headerLine token (name ++ ':' :: value) = none := by
  obtain ⟨before, d, after, rfl, hd, hbefore⟩ := exists_first_outside ⟨c, hc, htoken⟩
  have hdt := hname d (by simp)
  obtain ⟨htake, hdrop⟩ := takeWhile_append_of_all (d :: after ++ ':' :: value) hbefore
    (by simpa using hd)
  rw [List.append_assoc, headerLine, htake, hdrop, List.cons_append,
    trimLeft_cons_of_not (isTokenChar_not_space hdt)]
  split
  · rename_i heq
    exact absurd (List.cons.inj heq).1 (isTokenChar_ne_colon hdt)
  · rfl

/-- A line that starts with white space is no header line. -/
theorem headerLine_of_space (h : token c = false) : headerLine token (c :: line) = none := by
  simp [headerLine, h]

theorem continuation_of_not_space (h : isSpace c = false) :
    continuation (c :: line) = none := by
  simp [continuation, h]

theorem headerValue_self (key value : Text) :
    headerValue key (key ++ ':' :: value) = some (trimLeft value) := by
  have hprefix : key.isPrefixOf (key ++ ':' :: value) = true :=
    List.isPrefixOf_iff_prefix.mpr (List.prefix_append ..)
  rw [headerValue, if_pos hprefix, List.drop_left, trimLeft_cons_of_not (by decide)]
  rfl

/-- A header is found by its name only. -/
theorem headerValue_other {key name value : Text} (hkey : ':' ∉ key)
    (hname : ∀ c ∈ name, isTokenChar c = true) (hne : name ≠ key) :
    headerValue key (name ++ ':' :: value) = none := by
  rw [headerValue]
  split
  · rename_i hprefix
    obtain ⟨tail, htail⟩ := List.isPrefixOf_iff_prefix.mp hprefix
    rw [← htail, List.drop_left]
    rcases List.append_eq_append_iff.mp htail with ⟨t, hnt, htl⟩ | ⟨t, hkt, htl⟩
    · cases t with
      | nil => exact absurd (hnt.trans (List.append_nil _)) hne
      | cons c t =>
        have hc := hname c (by simp [hnt])
        rw [htl, List.cons_append, trimLeft_cons_of_not (isTokenChar_not_space hc)]
        split
        · rename_i heq
          exact absurd (List.cons.inj heq).1 (isTokenChar_ne_colon hc)
        · rfl
    · cases t with
      | nil => exact absurd (hkt.trans (List.append_nil _)).symm hne
      | cons c t =>
        obtain rfl : ':' = c := (List.cons.inj htl).1
        exact absurd (by simp [hkt]) hkey
  · rfl

end Lines

end Qvd.HttpHeads
