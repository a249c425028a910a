import Qvd.LineText
import Mathlib.Data.List.Infix
import Mathlib.Data.List.Nodup

/-!
What `qvd-deploy-db.pl` puts into the texts of a dump beside the data, and what it takes for such
a mark when it reads them: the header line of a table, the call of a function, `<BR>` for a line
break, and the two texts that stand for NULL. The classes `\w` and `\s` are those of Perl's
Unicode strings; the patterns need of them only what `CharClass` says.
-/
namespace Qvd.DumpMarks

open Qvd.LineText

/-- `\w` and `\s`. -/
structure CharClass where
  word : Char → Bool
  space : Char → Bool
  space_blank : space ' ' = true
  space_newline : space '\n' = true
  space_hash : space '#' = false
  word_hash : word '#' = false
  space_of_word : ∀ c, word c = true → space c = false

theorem isWord_not_space {c : Char} (h : isWord c = true) : isSpace c = false :=
  not_space_of isWord (by decide) h

/-- The classes on ASCII. -/
def ascii : CharClass where
  word := isWord
  space := isSpace
  space_blank := by decide
  space_newline := by decide
  space_hash := by decide
  word_hash := by decide
  space_of_word _ hc := isWord_not_space hc

section Patterns

variable (cls : CharClass)

/-- `$`: the end, or a last line feed. -/
def atEnd (s : Text) : Bool := s = [] || s = ['\n']

/-- The name in `/^#+\s*(\w+)\s*#+$/`. No character is in two of the classes that follow each
other, so every part is as long as it can be. -/
def headerName (s : Text) : Option Text :=
  let body := (s.dropWhile (· = '#')).dropWhile cls.space
  let name := body.takeWhile cls.word
  let tail := (body.dropWhile cls.word).dropWhile cls.space
  if s.head? = some '#' ∧ name ≠ [] ∧ tail.head? = some '#' ∧
      atEnd (tail.dropWhile (· = '#')) then some name
  else none

/-- `"#### $schema ####"`. -/
def headerText (schema : Text) : Text := "#### ".toList ++ schema ++ " ####".toList

/-- The text before `)$`, on one line. -/
def closed (s : Text) : Option Text :=
  let body := if s.getLast? = some '\n' then s.dropLast else s
  if body.getLast? = some ')' ∧ '\n' ∉ body.dropLast then some body.dropLast else none

/-- The name and the arguments in `/^\&(\w+)\((.*)\)$/`. -/
def functionCall : Text → Option (Text × Text)
  | '&' :: s =>
    match s.takeWhile cls.word, s.dropWhile cls.word with
    | c :: name, '(' :: rest => (closed rest).map fun args => (c :: name, args)
    | _, _ => none
  | _ => none

/-- `split(/\s*,\s*/, $2)`: a separator takes the white space around it, and the empty fields at
the end are dropped. -/
def splitArgs (s : Text) : List Text :=
  let left := fun f : Text => f.dropWhile cls.space
  let right := fun f : Text => f.rdropWhile cls.space
  let fields := match s.splitOn ',' with
    | first :: second :: rest =>
      right first :: ((second :: rest).dropLast.map (right ∘ left) ++
        (second :: rest).getLast?.toList.map left)
    | fields => fields
  fields.rdropWhile List.isEmpty

end Patterns

/-- `s/\n//g`. -/
def deleteNewlines (s : Text) : Text := s.filter (· ≠ '\n')

/-- `s/<BR>/\n/g`. -/
def replaceBr : Text → Text
  | '<' :: 'B' :: 'R' :: '>' :: s => '\n' :: replaceBr s
  | c :: s => c :: replaceBr s
  | [] => []

/-- The values that are taken out of a tuple are `\N` and the empty one. -/
def isNull (v : Text) : Bool := v = "\\N".toList || v = []

/-! ### Headers -/

section Headers

variable {cls : CharClass} {s name : Text}

theorem newline_not_mem_word (hname : ∀ c ∈ name, cls.word c = true) : '\n' ∉ name := by
  intro h
  have := cls.space_of_word '\n' (hname '\n' h)
  simp [cls.space_newline] at this

theorem newline_not_mem_headerText (hname : ∀ c ∈ name, cls.word c = true) :
    '\n' ∉ headerText name := by
  simpa [headerText] using newline_not_mem_word hname

theorem takeWhile_word (hname : ∀ c ∈ name, cls.word c = true) (rest : Text) :
    (name ++ ' ' :: rest).takeWhile cls.word = name ∧
      (name ++ ' ' :: rest).dropWhile cls.word = ' ' :: rest := by
  have hblank : cls.word ' ' = false := by
    by_contra h
    exact absurd (cls.space_of_word ' ' (by simpa using h)) (by simp [cls.space_blank])
  induction name with
  | nil => simp [hblank]
  | cons c name ih =>
    obtain ⟨hc, hname⟩ := List.forall_mem_cons.mp hname
    simp [hc, ih hname]

/-- A written header is read as the header of its table. -/
theorem headerName_headerText (hname : ∀ c ∈ name, cls.word c = true) (hne : name ≠ []) :
    headerName cls (headerText name) = some name := by
  obtain ⟨c, name, rfl⟩ := List.exists_cons_of_ne_nil hne
  have hc := hname c List.mem_cons_self
  have hspace := cls.space_of_word c hc
  have hhash : ((headerText (c :: name)).dropWhile (· = '#')).dropWhile cls.space =
      (c :: name) ++ ' ' :: "####".toList := by
    simp [headerText, cls.space_blank, hspace]
  obtain ⟨htake, hdrop⟩ := takeWhile_word hname "####".toList
  have htail : (' ' :: "####".toList).dropWhile cls.space = "####".toList := by
    simp [cls.space_blank, cls.space_hash]
  rw [headerName, hhash, htake, hdrop, htail]
  exact if_pos ⟨rfl, by simp, rfl, by decide⟩

theorem headerName_eq_none (h : s.head? ≠ some '#') : headerName cls s = none :=
  if_neg fun hs => h hs.1

/-- The name of a column is no header. -/
theorem headerName_word (hs : ∀ c ∈ s, cls.word c = true) : headerName cls s = none := by
  refine headerName_eq_none fun h => ?_
  have := hs '#' (List.mem_of_mem_head? h)
  simp [cls.word_hash] at this

end Headers

/-! ### Line breaks -/

section LineBreaks

variable {s v : Text}

theorem not_mem_deleteNewlines (s : Text) : '\n' ∉ deleteNewlines s := by
  simp [deleteNewlines]

theorem deleteNewlines_of_not_mem (h : '\n' ∉ s) : deleteNewlines s = s :=
  List.filter_eq_self.mpr fun c hc => by
    rw [decide_eq_true_iff]
    rintro rfl
    exact h hc

theorem length_deleteNewlines (s : Text) :
    (deleteNewlines s).length + s.count '\n' = s.length := by
  induction s with
  | nil => rfl
  | cons c s ih =>
    by_cases hc : c = '\n'
    · rw [hc, deleteNewlines, List.filter_cons_of_neg (by simp), List.count_cons_self,
        List.length_cons, ← Nat.add_assoc]
      exact congrArg (· + 1) ih
    · rw [deleteNewlines, List.filter_cons_of_pos (by simpa using hc),
        List.count_cons_of_ne hc, List.length_cons, List.length_cons, Nat.add_right_comm]
      exact congrArg (· + 1) ih

theorem length_replaceBr_le (s : Text) : (replaceBr s).length ≤ s.length := by
  fun_induction replaceBr s with
  | case1 s ih =>
    simp only [List.length_cons]
    omega
  | case2 c s h ih => simpa using ih
  | case3 => rfl

/-- A `<BR>` is four characters that become one line feed. -/
theorem length_replaceBr_lt (h : "<BR>".toList <:+: s) : (replaceBr s).length < s.length := by
  fun_induction replaceBr s with
  | case1 s ih =>
    have := length_replaceBr_le s
    simp only [List.length_cons]
    omega
  | case2 c s hc ih =>
    rcases List.infix_cons_iff.mp h with hprefix | hinfix
    · obtain ⟨rest, hrest⟩ := hprefix
      obtain ⟨rfl, rfl⟩ := List.cons.inj hrest
      exact absurd rfl (hc rest rfl)
    · simpa using ih hinfix
  | case3 => simp at h

theorem replaceBr_eq_self (h : ¬"<BR>".toList <:+: s) : replaceBr s = s := by
  fun_induction replaceBr s with
  | case1 s ih => exact absurd (List.prefix_append "<BR>".toList s).isInfix h
  | case2 c s hc ih => rw [ih fun hs => h (hs.trans (List.suffix_cons c s).isInfix)]
  | case3 => rfl

/-- The writer's deletion and the reader's replacement give back a text exactly if it holds
neither a line feed nor a `<BR>`. -/
theorem replaceBr_deleteNewlines_iff :
    replaceBr (deleteNewlines v) = v ↔ '\n' ∉ v ∧ ¬"<BR>".toList <:+: v := by
  constructor
  · intro h
    have hlength := length_deleteNewlines v
    have hle := length_replaceBr_le (deleteNewlines v)
    have hmem : '\n' ∉ v := by
      rw [← List.count_eq_zero]
      rw [h] at hle
      omega
    rw [deleteNewlines_of_not_mem hmem] at h
    refine ⟨hmem, fun hbr => ?_⟩
    have := length_replaceBr_lt hbr
    rw [h] at this
    omega
  · rintro ⟨hmem, hbr⟩
    rw [deleteNewlines_of_not_mem hmem, replaceBr_eq_self hbr]

end LineBreaks

end Qvd.DumpMarks
