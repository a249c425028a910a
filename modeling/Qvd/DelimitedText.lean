import Qvd.LineText

/-!
Records of fields kept as lines of text: a separator between the fields, quotes around a field
that needs them, an escape character inside the quotes. A codec prints records and reads lines;
it is lawful when it reads back what it printed, also between lines that were not printed by it.
The last sections give a codec for every choice of the three characters and prove it lawful.
-/
namespace Qvd.DelimitedText

open Qvd.LineText

/-- The printer and the reader of records. -/
structure Codec where
  /-- One record, with its end of line. -/
  print : List (Option Text) → Text
  /-- One record, without an end of line. -/
  combine : List Text → Text
  /-- All the records of a text. -/
  getlines : Text → List (List Text)

/-- A line of a file: a printed record, or a text written as it is. -/
inductive Line where
  | printed (fields : List (Option Text))
  | plain (text : Text)

/-- The fields that are read from a line; a missing field is read as an empty one. -/
def Line.fields : Line → List Text
  | .printed fields => fields.map fun f => f.getD []
  | .plain text => [text]

/-- What a codec can be asked to read back: fields without a line feed, and lines of plain
characters. -/
def Line.WellFormed (plain : Char → Bool) : Line → Prop
  | .printed fields => fields ≠ [] ∧ ∀ v, some v ∈ fields → '\n' ∉ v
  | .plain text => ∀ c ∈ text, plain c = true

namespace Codec

variable (csv : Codec)

def lineText : Line → Text
  | .printed fields => csv.print fields
  | .plain text => text ++ ['\n']

/-- What is relied on: the lines of a file are read back, and only the record with one empty
field is an empty line. -/
structure Lawful (plain : Char → Bool) : Prop where
  getlines_lines : ∀ lines : List Line, (∀ l ∈ lines, l.WellFormed plain) →
    csv.getlines (lines.flatMap csv.lineText) = lines.map Line.fields
  combine_eq_nil : ∀ fields : List Text, fields ≠ [] → (∀ f ∈ fields, '\n' ∉ f) →
    (csv.combine fields = [] ↔ fields = [[]])

end Codec

/-! ### Separator, quote and escape -/

/-- The three characters of a dialect. -/
structure Dialect where
  sep : Char
  quote : Char
  escape : Char
  sep_ne_newline : sep ≠ '\n'
  quote_ne_newline : quote ≠ '\n'
  quote_ne_sep : quote ≠ sep
  escape_ne_quote : escape ≠ quote

namespace Dialect

variable (d : Dialect)

/-- A character that has no meaning of its own outside quotes. -/
def isBare (c : Char) : Bool :=
  c ≠ d.sep && c ≠ d.quote && c ≠ d.escape && c ≠ '\n'

/-- Control characters and the space are quoted too. -/
def needsQuotes (v : Text) : Bool :=
  v.any fun c => !d.isBare c || c.toNat ≤ 32

def escapeChar (c : Char) : Text :=
  if c = d.quote ∨ c = d.escape then [d.escape, c] else [c]

def fieldText (v : Text) : Text :=
  if d.needsQuotes v then d.quote :: v.flatMap d.escapeChar ++ [d.quote] else v

/-- The fields of a record, and then `eol`. -/
def recordText (eol : Text) : List Text → Text
  | [] => eol
  | [f] => d.fieldText f ++ eol
  | f :: g :: fields => d.fieldText f ++ d.sep :: recordText eol (g :: fields)

/-- Where in a field the reader is. -/
inductive Place where
  | start | bare | quoted | escaped | closed

/-- What is left at the end of the text: nothing at the start of a line, an unfinished quotation
is an error, and any other rest is the last record. -/
def atEnd (field : Text) (row : List Text) : Place → List (List Text)
  | .start => if row = [] then [] else [row ++ [field]]
  | .bare | .closed => [row ++ [field]]
  | .quoted | .escaped => []

/-- The records of a text, up to its first error. -/
def scan : Place → Text → List Text → Text → List (List Text)
  | place, field, row, [] => atEnd field row place
  | .quoted, field, row, c :: s =>
    if c = d.quote then scan .closed field row s
    else if c = d.escape then scan .escaped field row s
    else scan .quoted (field ++ [c]) row s
  | .escaped, field, row, c :: s => scan .quoted (field ++ [c]) row s
  | .start, field, row, c :: s =>
    if c = '\n' then (row ++ [field]) :: scan .start [] [] s
    else if c = d.sep then scan .start [] (row ++ [field]) s
    else if c = d.quote then scan .quoted [] row s
    else if c = d.escape then []
    else scan .bare (field ++ [c]) row s
  | .bare, field, row, c :: s =>
    if c = '\n' then (row ++ [field]) :: scan .start [] [] s
    else if c = d.sep then scan .start [] (row ++ [field]) s
    else if d.isBare c then scan .bare (field ++ [c]) row s
    else []
  | .closed, field, row, c :: s =>
    if c = '\n' then (row ++ [field]) :: scan .start [] [] s
    else if c = d.sep then scan .start [] (row ++ [field]) s
    else []

/-- The codec of a dialect. -/
def codec : Codec where
  print fields := d.recordText ['\n'] (fields.map fun f => f.getD [])
  combine := d.recordText []
  getlines := d.scan .start [] []

/-! ### Reading one field -/

variable {d} {v field rest : Text} {row : List Text} {c : Char}

theorem isBare_iff : d.isBare c = true ↔ c ≠ d.sep ∧ c ≠ d.quote ∧ c ≠ d.escape ∧ c ≠ '\n' := by
  simp [isBare, and_assoc]

theorem scan_bare (hv : ∀ c ∈ v, d.isBare c = true) :
    d.scan .bare field row (v ++ rest) = d.scan .bare (field ++ v) row rest := by
  induction v generalizing field with
  | nil => simp
  | cons c v ih =>
    obtain ⟨hc, hv⟩ := List.forall_mem_cons.mp hv
    obtain ⟨hsep, -, -, hnewline⟩ := isBare_iff.mp hc
    rw [List.cons_append, scan, if_neg hnewline, if_neg hsep, if_pos hc, ih hv,
      List.append_assoc, List.singleton_append]

/-- A bare text that is not empty. -/
theorem scan_start_bare (hv : ∀ c ∈ v, d.isBare c = true) (hne : v ≠ []) :
    d.scan .start [] row (v ++ rest) = d.scan .bare v row rest := by
  obtain ⟨c, v, rfl⟩ := List.exists_cons_of_ne_nil hne
  obtain ⟨hc, hv⟩ := List.forall_mem_cons.mp hv
  obtain ⟨hsep, hquote, hescape, hnewline⟩ := isBare_iff.mp hc
  rw [List.cons_append, scan, if_neg hnewline, if_neg hsep, if_neg hquote, if_neg hescape,
    scan_bare hv]
  rfl

theorem scan_escapeChar :
    d.scan .quoted field row (d.escapeChar c ++ rest) = d.scan .quoted (field ++ [c]) row rest := by
  by_cases hc : c = d.quote ∨ c = d.escape
  · rw [escapeChar, if_pos hc, List.cons_append, scan, if_neg d.escape_ne_quote, if_pos rfl,
      List.singleton_append, scan]
  · rw [escapeChar, if_neg hc, List.singleton_append, scan, if_neg (not_or.mp hc).1,
      if_neg (not_or.mp hc).2]

theorem scan_quoted :
    d.scan .quoted field row (v.flatMap d.escapeChar ++ rest) =
      d.scan .quoted (field ++ v) row rest := by
  induction v generalizing field with
  | nil => simp
  | cons c v ih =>
    rw [List.flatMap_cons, List.append_assoc, scan_escapeChar, ih, List.append_assoc,
      List.singleton_append]

/-- The end of a line ends the record, whatever the place, outside quotes. -/
theorem scan_newline (place : Place) (hquoted : place ≠ .quoted) (hescaped : place ≠ .escaped) :
    d.scan place field row ('\n' :: rest) = (row ++ [field]) :: d.scan .start [] [] rest := by
  cases place <;> simp_all [scan]

/-- A separator ends the field. -/
theorem scan_sep (place : Place) (hquoted : place ≠ .quoted) (hescaped : place ≠ .escaped) :
    d.scan place field row (d.sep :: rest) = d.scan .start [] (row ++ [field]) rest := by
  cases place <;> simp_all [scan, d.sep_ne_newline]

/-- A printed field is read to its end, and the reader is outside quotes then. -/
theorem scan_fieldText (row : List Text) (v : Text) :
    ∃ place : Place, place ≠ .quoted ∧ place ≠ .escaped ∧
    ∀ rest, d.scan .start [] row (d.fieldText v ++ rest) = d.scan place v row rest := by
  by_cases hquotes : d.needsQuotes v = true
  · refine ⟨.closed, by simp, by simp, fun rest => ?_⟩
    rw [fieldText, if_pos hquotes, List.append_assoc, List.cons_append, scan,
      if_neg d.quote_ne_newline, if_neg d.quote_ne_sep, if_pos rfl, scan_quoted,
      List.singleton_append, scan, if_pos rfl]
    rfl
  · have hv : ∀ c ∈ v, d.isBare c = true := by
      intro c hc
      simp only [needsQuotes, List.any_eq_true, not_exists, not_and] at hquotes
      have := hquotes c hc
      simp_all
    rw [fieldText, if_neg hquotes]
    by_cases hne : v = []
    · exact ⟨.start, by simp, by simp, fun rest => by rw [hne, List.nil_append]⟩
    · exact ⟨.bare, by simp, by simp, fun rest => scan_start_bare hv hne⟩

/-! ### Reading records -/

/-- A printed record is read, and the reader starts anew after it. -/
theorem scan_recordText {fields : List Text} (hne : fields ≠ []) :
    d.scan .start [] row (d.recordText ['\n'] fields ++ rest) =
      (row ++ fields) :: d.scan .start [] [] rest := by
  induction fields generalizing row with
  | nil => exact absurd rfl hne
  | cons f fields ih =>
    obtain ⟨place, hquoted, hescaped, hscan⟩ := scan_fieldText (d := d) row f
    cases fields with
    | nil =>
      rw [recordText, List.append_assoc, hscan, List.singleton_append,
        scan_newline place hquoted hescaped]
    | cons g fields =>
      rw [recordText, List.append_assoc, hscan, List.cons_append,
        scan_sep place hquoted hescaped, ih (List.cons_ne_nil g fields), List.append_assoc,
        List.singleton_append]

theorem recordText_eq_nil {fields : List Text} (hne : fields ≠ []) :
    d.recordText [] fields = [] ↔ fields = [[]] := by
  match fields with
  | [] => exact absurd rfl hne
  | [f] =>
    by_cases hquotes : d.needsQuotes f = true
    · have hf : f ≠ [] := fun h => by simp [h, needsQuotes] at hquotes
      simp [recordText, fieldText, hquotes, hf]
    · simp [recordText, fieldText, hquotes]
  | f :: g :: fields => simp [recordText]

/-- A dialect reads back what it printed, between lines of characters it gives no meaning. -/
theorem lawful {plain : Char → Bool} (hplain : ∀ c, plain c = true → d.isBare c = true) :
    d.codec.Lawful plain where
  getlines_lines lines hlines := by
    induction lines with
    | nil => rfl
    | cons line lines ih =>
      obtain ⟨hline, hlines⟩ := List.forall_mem_cons.mp hlines
      rw [List.flatMap_cons, List.map_cons, ← ih hlines]
      cases line with
      | printed fields =>
        exact (scan_recordText (by simpa using hline.1)).trans (by rw [List.nil_append]; rfl)
      | plain text =>
        change d.scan .start [] [] ((text ++ ['\n']) ++ _) = _
        rw [List.append_assoc]
        by_cases hne : text = []
        · rw [hne]
          exact scan_newline .start (by simp) (by simp)
        · rw [scan_start_bare (fun c hc => hplain c (hline c hc)) hne]
          exact scan_newline .bare (by simp) (by simp)
  combine_eq_nil _ hne _ := recordText_eq_nil hne

end Dialect

end Qvd.DelimitedText
