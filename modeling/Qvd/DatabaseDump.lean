import Qvd.DelimitedText
import Qvd.DumpMarks
import Mathlib.Data.List.Forall2

/-!
The file of a database as `qvd-deploy-db.pl` writes it before an upgrade and reads it back:
`create_tuples_file` and `get_data_from_file`. The writer deletes the line breaks of a value and
prints everything else as it is; the reader takes some rows for headers, some values for function
calls, some texts for line breaks and some for NULL. The reading gives back the database exactly
if no row and no value of it is one of these.
-/
namespace Qvd.DatabaseDump

open Qvd.LineText Qvd.DelimitedText Qvd.DumpMarks

/-- A table of the database, with the name of its source class. -/
structure Table (cls : CharClass) where
  schema : Text
  columns : List Text
  /-- `fetchrow_array` for each row; `none` is NULL. -/
  rows : List (List (Option Text))
  schema_ne : schema ≠ []
  schema_word : ∀ c ∈ schema, cls.word c = true
  columns_ne : columns ≠ []
  columns_nodup : columns.Nodup
  columns_word : ∀ name ∈ columns, name ≠ [] ∧ ∀ c ∈ name, cls.word c = true
  rows_length : ∀ row ∈ rows, row.length = columns.length

/-- A tuple as a hash: the columns it has, with their values. -/
abbrev Tuple := Text → Option Text

/-- What `get_data_from_file` returns: each schema with its tuples. -/
abbrev Data := List (Text × List Tuple)

/-- What `localtime` returns, with the year from 1900 on and the month from 0 on. -/
structure LocalTime where
  second : ℕ
  minute : ℕ
  hour : ℕ
  day : ℕ
  month : ℕ
  year : ℕ

/-- The machine the reader runs on: the files that can be opened, and the clock. -/
structure Machine where
  contents : Text → Option Text
  localtime : LocalTime

/-! ### The functions of a data file -/

section Functions

variable (cls : CharClass) (machine : Machine)

/-- The keys of `%functions`. -/
inductive Function where
  | fileContent | currentTime
  deriving DecidableEq

def functions (name : Text) : Option Function :=
  if name = "FILE_CONTENT".toList then some .fileContent
  else if name = "CURRENT_TIME".toList then some .currentTime
  else none

/-- `get_file_content`: it dies when the file cannot be opened. -/
def getFileContent (args : List Text) : Option Text := machine.contents (args.headD [])

/-- `%0nd`. -/
def padded (width n : ℕ) : Text := (Nat.toDigits 10 n).leftpad width '0'

/-- `get_current_time`. -/
def getCurrentTime : Text :=
  let now := machine.localtime
  padded 4 (now.year + 1900) ++ '-' :: padded 2 (now.month + 1) ++ '-' :: padded 2 now.day ++
    ' ' :: padded 2 now.hour ++ ':' :: padded 2 now.minute ++ ':' :: padded 2 now.second ++
    "+00".toList

/-- The function that a value calls, with its arguments. -/
def knownCall (value : Text) : Option (Function × List Text) :=
  (functionCall cls value).bind fun call =>
    (functions call.1).map fun f => (f, splitArgs cls call.2)

/-- `apply_function`; `none` is a death. -/
def applyFunction (value : Text) : Option Text :=
  match knownCall cls value with
  | some (.fileContent, args) => getFileContent machine args
  | some (.currentTime, _) => some (getCurrentTime machine)
  | none => some value

end Functions

/-! ### Writing -/

section Writing

variable (csv : Codec) {cls : CharClass}

/-- A row as it is printed: `s/\n//g if defined $_`. -/
def printedRow (row : List (Option Text)) : List (Option Text) :=
  row.map fun v => v.map deleteNewlines

def tableText (t : Table cls) : Text :=
  if t.rows = [] then []
  else headerText t.schema ++ '\n' :: csv.print (t.columns.map some) ++
    t.rows.flatMap (fun row => csv.print (printedRow row)) ++ ['\n']

/-- `create_tuples_file` for the tables of `get_table_list`. -/
def createTuplesFile (db : List (Table cls)) : Text := db.flatMap (tableText csv)

end Writing

/-! ### Reading -/

section Reading

variable (cls : CharClass) (machine : Machine) (csv : Codec)

/-- `$data` and `@currAttribNames`. -/
structure Reading where
  data : Data
  names : List Text

/-- `@currAttribHash{@currAttribNames} = @currAttribValues`: of equal names the last one holds. -/
def hashSlice : List Text → List Text → Tuple
  | name :: names, value :: values => fun key =>
    (hashSlice names values key).or (if key = name then some value else none)
  | _, _ => fun _ => none

/-- `delete $currAttribHash{$key} if ($val eq '\N' || $val eq '')`. -/
def deleteNulls (tuple : Tuple) : Tuple := fun key => (tuple key).filter fun v => !isNull v

/-- `push (@{$data->[-1]}, ...)`, which dies where no table has begun. -/
def pushTuple (data : Data) (tuple : Tuple) : Option Data :=
  data.getLast?.map fun last => data.dropLast ++ [(last.1, last.2 ++ [tuple])]

/-- The tuple of a row of values; `none` is a death. -/
def readTuple (names row : List Text) : Option Tuple :=
  (row.mapM (applyFunction cls machine)).bind fun values =>
    if values.length = names.length then
      some (deleteNulls (hashSlice names (values.map replaceBr)))
    else none

/-- The body of the loop of `get_data_from_file`. -/
def readRecord (st : Reading) (row : List Text) : Option Reading :=
  if csv.combine row = [] then some st
  else match headerName cls (row.headD []) with
    | some schema => some ⟨st.data ++ [(schema, [])], []⟩
    | none =>
      if st.names = [] then some { st with names := row }
      else (readTuple cls machine st.names row).bind fun tuple =>
        (pushTuple st.data tuple).map fun data => { st with data := data }

/-- `get_data_from_file`; `none` is a death. -/
def getDataFromFile (file : Text) : Option Data :=
  ((csv.getlines file).foldlM (readRecord cls machine csv) ⟨[], []⟩).map Reading.data

end Reading

/-! ### What the file is for -/

section Contents

variable {cls : CharClass}

/-- A row as a tuple: the columns that are not NULL. -/
def tupleOf : List Text → List (Option Text) → Tuple
  | name :: names, value :: values => fun key =>
    if key = name then value else tupleOf names values key
  | _, _ => fun _ => none

/-- The tables that have a row, each with its tuples. A table without rows has nothing to keep,
and the writer leaves it out. -/
def contents (db : List (Table cls)) : Data :=
  (db.filter fun t => !t.rows.isEmpty).map fun t => (t.schema, t.rows.map (tupleOf t.columns))

end Contents

/-! ### What is read back -/

section Kept

variable (cls : CharClass) (machine : Machine)

/-- The value is not one of the two that stand for NULL; it calls no function, except for a file
that holds the value itself; otherwise it has neither a line break nor a `<BR>`. -/
def ValueKept (v : Text) : Prop :=
  isNull v = false ∧
    match knownCall cls (deleteNewlines v) with
    | some (.fileContent, args) => (machine.contents (args.headD [])).map replaceBr = some v
    | some (.currentTime, _) => False
    | none => '\n' ∉ v ∧ ¬"<BR>".toList <:+: v

instance (v : Text) : Decidable (ValueKept cls machine v) :=
  @instDecidableAnd _ _ inferInstance <|
    match knownCall cls (deleteNewlines v) with
    | some (.fileContent, args) =>
      inferInstanceAs (Decidable ((machine.contents (args.headD [])).map replaceBr = some v))
    | some (.currentTime, _) => instDecidableFalse
    | none => inferInstanceAs (Decidable ('\n' ∉ v ∧ ¬"<BR>".toList <:+: v))

/-- The texts of a row as they stand in the file. -/
def rowTexts (row : List (Option Text)) : List Text :=
  (printedRow row).map fun v => v.getD []

/-- The row is not a single empty text, its first text is no header, and all its values are
kept. -/
def RowKept (row : List (Option Text)) : Prop :=
  rowTexts row ≠ [[]] ∧ headerName cls ((rowTexts row).headD []) = none ∧
    ∀ v, some v ∈ row → ValueKept cls machine v

end Kept

end Qvd.DatabaseDump
