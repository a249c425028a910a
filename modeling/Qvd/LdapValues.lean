import Qvd.UriText

/-!
Values inside the text of a distinguished name and of a search filter: which texts stand for a
value there, and the escapes that keep a value from being read as syntax.
-/
namespace Qvd.LdapValues

open LineText UriText

section Hex

/-- A backslash and the two digits of a character's code. -/
def hexPair (c : Char) : Text :=
  ['\\', Nat.digitChar (c.toNat / 16), Nat.digitChar (c.toNat % 16)]

/-- Two digits name an ASCII character. -/
inductive HexPair : Text → Char → Prop
  | digits {h l c : Char} {m n : ℕ} (hh : hexValue h = some m) (hl : hexValue l = some n)
      (hc : c.toNat = 16 * m + n) (hascii : c.toNat < 128) : HexPair ['\\', h, l] c

theorem hexValue_digitChar {n : ℕ} (h : n < 16) : hexValue (Nat.digitChar n) = some n := by
  have hall : ∀ m < 16, hexValue (Nat.digitChar m) = some m := by decide
  exact hall n h

theorem hexPair_stands {c : Char} (h : c.toNat < 128) : HexPair (hexPair c) c :=
  .digits (hexValue_digitChar (by omega)) (hexValue_digitChar (by omega)) (by omega) h

end Hex

section Dn

def dnSpecial : List Char := ['\\', '"', '+', ',', ';', '<', '>']

/-- A piece of text stands for a character of an attribute value in a distinguished name: the
first one there is neither a blank nor a sharp sign, and the last one is no blank. -/
inductive DnPiece (first last : Bool) : Text → Char → Prop
  | plain {c : Char} (hspecial : c ∉ dnSpecial) (hnul : c ≠ '\x00')
      (hfirst : first = true → c ≠ ' ' ∧ c ≠ '#') (hlast : last = true → c ≠ ' ') :
      DnPiece first last [c] c
  | escaped {c : Char} (h : c ∈ dnSpecial ∨ c = ' ' ∨ c = '#' ∨ c = '=') :
      DnPiece first last ['\\', c] c
  | hex {text : Text} {c : Char} (h : HexPair text c) : DnPiece first last text c

/-- A text stands for an attribute value in a distinguished name. -/
inductive DnValue : Bool → Text → Text → Prop
  | nil {first : Bool} : DnValue first [] []
  | cons {first : Bool} {piece text value : Text} {c : Char}
      (head : DnPiece first value.isEmpty piece c) (tail : DnValue false text value) :
      DnValue first (piece ++ text) (c :: value)

/-- The characters a distinguished name's escape puts a backslash before. -/
def dnBackslashed : List Char := ['\\', '"', ',', '=', '+', '<', '>', '#', ';']

def escapeDnChar (c : Char) : Text :=
  if c ∈ dnBackslashed then ['\\', c]
  else if c.toNat < 32 then hexPair c
  else [c]

/-- The escape of a value; blanks in front of anything else and after everything else are
escaped too. -/
def escapeDnFrom (leading : Bool) : Text → Text
  | [] => []
  | c :: value =>
    let piece := if c = ' ' ∧ (leading || value.all (· = ' ')) then hexPair c
      else escapeDnChar c
    piece ++ escapeDnFrom (leading && c = ' ') value

def escapeDn (value : Text) : Text := escapeDnFrom true value

theorem escapeDnChar_stands {c : Char} {first last : Bool} (hfirst : first = true → c ≠ ' ')
    (hlast : last = true → c ≠ ' ') : DnPiece first last (escapeDnChar c) c := by
  unfold escapeDnChar
  split
  · rename_i hmem
    have hall : dnBackslashed.all (fun d => d ∈ dnSpecial ∨ d = ' ' ∨ d = '#' ∨ d = '=') = true :=
      by decide
    exact .escaped (of_decide_eq_true (List.all_eq_true.mp hall c hmem))
  · rename_i hmem
    split
    · exact .hex (hexPair_stands (by omega))
    · rename_i hcontrol
      refine .plain ?_ ?_ ?_ hlast
      · intro hspecial
        have hall : dnSpecial.all (· ∈ dnBackslashed) = true := by decide
        exact hmem (of_decide_eq_true (List.all_eq_true.mp hall c hspecial))
      · rintro rfl
        exact hcontrol (by decide)
      · intro hpos
        refine ⟨hfirst hpos, ?_⟩
        rintro rfl
        exact hmem (by decide)

theorem escapeDnFrom_stands {first leading : Bool} (hfirst : first = true → leading = true)
    (value : Text) : DnValue first (escapeDnFrom leading value) value := by
  induction value generalizing first leading with
  | nil => exact .nil
  | cons c value ih =>
    refine .cons ?_ (ih (nomatch ·))
    split
    · rename_i hblank
      obtain ⟨rfl, -⟩ := hblank
      exact .hex (hexPair_stands (by decide))
    · rename_i hblank
      refine escapeDnChar_stands ?_ ?_
      · rintro hpos rfl
        exact hblank ⟨rfl, by rw [hfirst hpos]; rfl⟩
      · rintro hend rfl
        refine hblank ⟨rfl, ?_⟩
        rw [List.isEmpty_iff.mp hend]
        exact Bool.or_true _

/-- The escape of a value stands for it. -/
theorem escapeDn_stands (value : Text) : DnValue true (escapeDn value) value :=
  escapeDnFrom_stands (fun _ => rfl) value

end Dn

section Filter

def filterSpecial : List Char := ['*', '(', ')', '\\']

/-- A piece of text stands for a character of an assertion value in a search filter. -/
inductive FilterPiece : Text → Char → Prop
  | plain {c : Char} (hspecial : c ∉ filterSpecial) (hnul : c ≠ '\x00') : FilterPiece [c] c
  | hex {text : Text} {c : Char} (h : HexPair text c) : FilterPiece text c

/-- A text stands for an assertion value in a search filter. -/
inductive FilterValue : Text → Text → Prop
  | nil : FilterValue [] []
  | cons {piece text value : Text} {c : Char} (head : FilterPiece piece c)
      (tail : FilterValue text value) : FilterValue (piece ++ text) (c :: value)

def escapeFilterChar (c : Char) : Text :=
  if c ∈ filterSpecial ∨ c.toNat < 32 then hexPair c else [c]

def escapeFilter (value : Text) : Text := value.flatMap escapeFilterChar

theorem escapeFilter_stands (value : Text) : FilterValue (escapeFilter value) value := by
  induction value with
  | nil => exact .nil
  | cons c value ih =>
    refine .cons ?_ ih
    unfold escapeFilterChar
    split
    · rename_i hescape
      refine .hex (hexPair_stands ?_)
      rcases hescape with hmem | hcontrol
      · have hall : filterSpecial.all (·.toNat < 128) = true := by decide
        exact of_decide_eq_true (List.all_eq_true.mp hall c hmem)
      · omega
    · rename_i hescape
      refine .plain (fun hmem => hescape (.inl hmem)) ?_
      rintro rfl
      exact hescape (.inr (by decide))

end Filter

section Plain

/-- A value that no escape changes: nothing in it is syntax or a control character, and there is
no blank at either end. -/
structure Plain (value : Text) : Prop where
  dn : ∀ c ∈ value, c ∉ dnBackslashed
  filter : ∀ c ∈ value, c ∉ filterSpecial
  printable : ∀ c ∈ value, 32 ≤ c.toNat
  head : value.head? ≠ some ' '
  last : value.getLast? ≠ some ' '

theorem escapeDnFrom_plain {leading : Bool} (value : Text)
    (hdn : ∀ c ∈ value, c ∉ dnBackslashed) (hprintable : ∀ c ∈ value, 32 ≤ c.toNat)
    (hhead : leading = true → value.head? ≠ some ' ') (hlast : value.getLast? ≠ some ' ') :
    escapeDnFrom leading value = value := by
  induction value generalizing leading with
  | nil => rfl
  | cons c value ih =>
    obtain ⟨hc, hrest⟩ := List.forall_mem_cons.mp hdn
    obtain ⟨hcode, hcodes⟩ := List.forall_mem_cons.mp hprintable
    have hleading : leading = true → c ≠ ' ' := by
      rintro hpos rfl
      exact hhead hpos rfl
    have htrailing : value.all (· = ' ') = true → c ≠ ' ' := by
      rintro hall rfl
      refine hlast ?_
      have hmem := List.getLast_mem (List.cons_ne_nil ' ' value)
      rw [List.getLast?_eq_some_getLast (List.cons_ne_nil ' ' value)]
      rcases List.mem_cons.mp hmem with hlast | hlast
      · rw [hlast]
      · rw [of_decide_eq_true (List.all_eq_true.mp hall _ hlast)]
    have hrestLast : value.getLast? ≠ some ' ' := by
      intro hblank
      refine hlast ?_
      rw [List.getLast?_cons, hblank]
      rfl
    unfold escapeDnFrom
    rw [if_neg, escapeDnChar, if_neg hc, if_neg (by omega), List.singleton_append,
      ih hrest hcodes ?_ hrestLast]
    · intro hboth
      obtain ⟨hpos, hblank⟩ := (Bool.and_eq_true _ _).mp hboth
      exact absurd (of_decide_eq_true hblank) (hleading hpos)
    · rintro ⟨hblank, hor⟩
      rcases (Bool.or_eq_true _ _).mp hor with hpos | hall
      · exact hleading hpos hblank
      · exact htrailing hall hblank

theorem Plain.escapeDn {value : Text} (h : Plain value) : escapeDn value = value :=
  escapeDnFrom_plain value h.dn h.printable (fun _ => h.head) h.last

theorem Plain.escapeFilter {value : Text} (h : Plain value) : escapeFilter value = value := by
  have hchars : ∀ c ∈ value, escapeFilterChar c = [c] := by
    intro c hmem
    have hprintable := h.printable c hmem
    refine if_neg ?_
    rintro (hspecial | hcontrol)
    · exact h.filter c hmem hspecial
    · omega
  rw [LdapValues.escapeFilter, List.flatMap_congr hchars, List.flatMap_singleton']

end Plain

end Qvd.LdapValues
