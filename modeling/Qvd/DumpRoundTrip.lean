import Qvd.DatabaseDump

/-!
When the file of a database is read back as the database. A row that is taken for a header adds
an entry to the data, so the number of entries shows that there is none. Without such rows the
tables are read one by one: a skipped row is missing in the count of its table, and every other
row is read value by value.
-/
namespace Qvd.DumpRoundTrip

open Qvd.LineText Qvd.DelimitedText Qvd.DumpMarks Qvd.DatabaseDump

/-! ### Lists read in `Option` -/

section Lists

variable {α β : Type} {f : α → Option β} {l : List α}

theorem mapM_eq_some_iff {ys : List β} :
    l.mapM f = some ys ↔ List.Forall₂ (fun x y => f x = some y) l ys := by
  induction l generalizing ys with
  | nil => simp [eq_comm]
  | cons x l ih =>
    simp only [List.mapM_cons, Option.bind_eq_bind, Option.bind_eq_some_iff, Option.pure_def,
      Option.some.injEq]
    constructor
    · rintro ⟨y, hy, ys, hys, rfl⟩
      exact .cons hy (ih.mp hys)
    · rintro (_ | ⟨hy, hys⟩)
      exact ⟨_, hy, _, ih.mpr hys, rfl⟩

theorem mapM_eq_some_map_iff {g : α → β} :
    l.mapM f = some (l.map g) ↔ ∀ x ∈ l, f x = some (g x) := by
  rw [mapM_eq_some_iff, List.forall₂_map_right_iff, List.forall₂_same]

/-- The results are as many as the elements, so none was left out. -/
theorem filter_mapM_eq_some_map_iff {p : α → Bool} {g : α → β} :
    (l.filter p).mapM f = some (l.map g) ↔ ∀ x ∈ l, p x = true ∧ f x = some (g x) := by
  constructor
  · intro h
    have hlength := (mapM_eq_some_iff.mp h).length_eq
    rw [List.length_map, List.length_filter_eq_length_iff] at hlength
    rw [List.filter_eq_self.mpr hlength] at h
    exact fun x hx => ⟨hlength x hx, mapM_eq_some_map_iff.mp h x hx⟩
  · intro h
    rw [List.filter_eq_self.mpr fun x hx => (h x hx).1]
    exact mapM_eq_some_map_iff.mpr fun x hx => (h x hx).2

end Lists

/-! ### One value -/

section Values

variable {cls : CharClass} {machine : Machine}

theorem padded_eq_cons (width n : ℕ) : ∃ c s, padded width n = c :: s ∧ c.isDigit = true := by
  have hne : padded width n ≠ [] := fun h => Nat.toDigits_ne_nil
    (List.append_eq_nil_iff.mp h).2
  obtain ⟨c, s, hcs⟩ := List.exists_cons_of_ne_nil hne
  refine ⟨c, s, hcs, ?_⟩
  have hc : c ∈ padded width n := hcs ▸ List.mem_cons_self
  rcases List.mem_append.mp hc with hzero | hdigit
  · rw [List.eq_of_mem_replicate hzero]
    rfl
  · exact Nat.isDigit_of_mem_toDigits (by decide) (by decide) hdigit

/-- A value that calls the clock is not restored: the time starts with a digit. -/
theorem replaceBr_getCurrentTime_ne {v : Text} {call : Text × Text}
    (h : functionCall cls (deleteNewlines v) = some call) :
    replaceBr (getCurrentTime machine) ≠ v := by
  obtain ⟨c, s, hcs, hdigit⟩ := padded_eq_cons 4 (machine.localtime.year + 1900)
  have htime : ∃ s', getCurrentTime machine = c :: s' := by
    rw [getCurrentTime, hcs]
    exact ⟨_, rfl⟩
  obtain ⟨s', htime⟩ := htime
  have hlt : c ≠ '<' := by
    rintro rfl
    exact absurd hdigit (by decide)
  have hnewline : c ≠ '\n' := by
    rintro rfl
    exact absurd hdigit (by decide)
  rintro rfl
  rw [htime, replaceBr.eq_2 c s' fun _ hc => absurd hc hlt, deleteNewlines,
    List.filter_cons_of_pos (by simpa using hnewline)] at h
  have hamp : c = '&' := by
    by_contra hc
    rw [functionCall.eq_2 _ _ fun _ hs => hc (List.cons.inj hs).1] at h
    cases h
  rw [hamp] at hdigit
  exact absurd hdigit (by decide)

/-- What is kept of a decoded value. -/
def keptValue (u : Text) : Option Text := (some (replaceBr u)).filter fun v => !isNull v

theorem keptValue_eq_some_iff {u v : Text} :
    keptValue u = some v ↔ replaceBr u = v ∧ isNull v = false := by
  simp only [keptValue, Option.filter_eq_some_iff, Option.some.injEq, Bool.not_eq_true']

/-- A value is restored exactly if it is kept. -/
theorem restored_iff {v : Text} :
    (∃ u, applyFunction cls machine (deleteNewlines v) = some u ∧ keptValue u = some v) ↔
      ValueKept cls machine v := by
  simp only [keptValue_eq_some_iff, ValueKept, applyFunction]
  cases hcall : knownCall cls (deleteNewlines v) with
  | none =>
    simp only [Option.some.injEq, exists_eq_left', replaceBr_deleteNewlines_iff]
    exact And.comm
  | some call =>
    obtain ⟨f, args⟩ := call
    cases f with
    | fileContent =>
      simp only [getFileContent, Option.map_eq_some_iff]
      constructor
      · rintro ⟨u, hu, hv, hnull⟩
        exact ⟨hnull, u, hu, hv⟩
      · rintro ⟨hnull, u, hu, hv⟩
        exact ⟨u, hu, hv, hnull⟩
    | currentTime =>
      obtain ⟨call, hfunction, -⟩ := Option.bind_eq_some_iff.mp hcall
      simp only [Option.some.injEq, exists_eq_left', and_false, iff_false, not_and]
      exact fun hv => absurd hv (replaceBr_getCurrentTime_ne hfunction)

/-- NULL is printed as nothing, and nothing is taken for NULL. -/
theorem restored_null :
    ∃ u, applyFunction cls machine [] = some u ∧ keptValue u = none :=
  ⟨[], rfl, rfl⟩

/-- One place of a row: it is read, and as what it was. -/
def PlaceKept (cls : CharClass) (machine : Machine) (text : Text) (value : Option Text) : Prop :=
  ∃ u, applyFunction cls machine text = some u ∧ keptValue u = value

theorem placeKept_iff {value : Option Text} :
    PlaceKept cls machine ((value.map deleteNewlines).getD []) value ↔
      ∀ v, value = some v → ValueKept cls machine v := by
  cases value with
  | none => simpa [PlaceKept] using restored_null
  | some v =>
    simp only [Option.some.injEq, forall_eq']
    exact restored_iff

end Values

/-! ### One row -/

section Rows

variable {cls : CharClass} {machine : Machine} {names : List Text} {key : Text}

theorem hashSlice_cons (name value : Text) (values : List Text) :
    hashSlice (name :: names) (value :: values) key =
      (hashSlice names values key).or (if key = name then some value else none) := rfl

theorem tupleOf_cons (name : Text) (value : Option Text) (row : List (Option Text)) :
    tupleOf (name :: names) (value :: row) key =
      if key = name then value else tupleOf names row key := rfl

theorem hashSlice_eq_none (hkey : key ∉ names) (values : List Text) :
    hashSlice names values key = none := by
  induction names generalizing values with
  | nil => rfl
  | cons name names ih =>
    obtain ⟨hne, hkey⟩ := List.ne_and_not_mem_of_not_mem_cons hkey
    cases values with
    | nil => rfl
    | cons value values => rw [hashSlice_cons, ih hkey, Option.none_or, if_neg hne]

theorem tupleOf_eq_none (hkey : key ∉ names) (row : List (Option Text)) :
    tupleOf names row key = none := by
  induction names generalizing row with
  | nil => rfl
  | cons name names ih =>
    obtain ⟨hne, hkey⟩ := List.ne_and_not_mem_of_not_mem_cons hkey
    cases row with
    | nil => rfl
    | cons value row => rw [tupleOf_cons, if_neg hne, ih hkey]

/-- Two tuples over different columns are equal when their values are. -/
theorem tuple_eq_iff (hnodup : names.Nodup) {values : List Text} {row : List (Option Text)}
    (hvalues : values.length = names.length) (hrow : row.length = names.length) :
    deleteNulls (hashSlice names (values.map replaceBr)) = tupleOf names row ↔
      List.Forall₂ (fun u value => keptValue u = value) values row := by
  induction names generalizing values row with
  | nil =>
    rw [List.length_eq_zero_iff.mp hvalues, List.length_eq_zero_iff.mp hrow]
    exact iff_of_true rfl .nil
  | cons name names ih =>
    obtain ⟨hname, hnodup⟩ := List.nodup_cons.mp hnodup
    obtain ⟨u, values, rfl⟩ := List.exists_of_length_succ values hvalues
    obtain ⟨value, row, rfl⟩ := List.exists_of_length_succ row hrow
    rw [List.forall₂_cons, ← ih hnodup (Nat.succ.inj hvalues) (Nat.succ.inj hrow), funext_iff,
      funext_iff]
    have hhead : deleteNulls (hashSlice (name :: names) ((u :: values).map replaceBr)) name =
        keptValue u := by
      rw [deleteNulls, List.map_cons, hashSlice_cons, hashSlice_eq_none hname, Option.none_or,
        if_pos rfl]
      rfl
    have htail : ∀ key, key ≠ name →
        deleteNulls (hashSlice (name :: names) ((u :: values).map replaceBr)) key =
          deleteNulls (hashSlice names (values.map replaceBr)) key := by
      intro key hkey
      rw [deleteNulls, List.map_cons, hashSlice_cons, if_neg hkey, Option.or_none]
      rfl
    constructor
    · intro h
      refine ⟨?_, fun key => ?_⟩
      · rw [← hhead, h name, tupleOf_cons, if_pos rfl]
      · by_cases hkey : key = name
        · rw [hkey, deleteNulls, hashSlice_eq_none hname, tupleOf_eq_none hname]
          rfl
        · rw [← htail key hkey, h key, tupleOf_cons, if_neg hkey]
    · rintro ⟨hvalue, h⟩ key
      by_cases hkey : key = name
      · rw [hkey, hhead, hvalue, tupleOf_cons, if_pos rfl]
      · rw [htail key hkey, h key, tupleOf_cons, if_neg hkey]

theorem forall₂_placeKept_iff {row : List (Option Text)} :
    List.Forall₂ (PlaceKept cls machine) (rowTexts row) row ↔
      ∀ v, some v ∈ row → ValueKept cls machine v := by
  rw [rowTexts, printedRow, List.map_map, List.forall₂_map_left_iff, List.forall₂_same]
  constructor
  · intro h v hv
    exact placeKept_iff.mp (h (some v) hv) v rfl
  · intro h value hvalue
    exact placeKept_iff.mpr fun v hv => h v (hv ▸ hvalue)

theorem length_rowTexts (row : List (Option Text)) : (rowTexts row).length = row.length := by
  simp [rowTexts, printedRow]

theorem forall₂_comp {R S : Type} {texts : List Text} {row : List S} {P : Text → R → Prop}
    {Q : R → S → Prop} :
    List.Forall₂ (fun x z => ∃ y, P x y ∧ Q y z) texts row ↔
      ∃ ys, List.Forall₂ P texts ys ∧ List.Forall₂ Q ys row := by
  constructor
  · intro h
    induction h with
    | nil => exact ⟨[], .nil, .nil⟩
    | cons hhead htail ih =>
      obtain ⟨y, hP, hQ⟩ := hhead
      obtain ⟨ys, hPs, hQs⟩ := ih
      exact ⟨y :: ys, .cons hP hPs, .cons hQ hQs⟩
  · rintro ⟨ys, hP, hQ⟩
    induction hP generalizing row with
    | nil =>
      cases hQ
      exact .nil
    | cons hP hPs ih =>
      cases hQ with
      | cons hQ hQs => exact .cons ⟨_, hP, hQ⟩ (ih hQs)

/-- A row is read as its tuple exactly if all its values are kept. -/
theorem readTuple_iff (hnodup : names.Nodup) {row : List (Option Text)}
    (hrow : row.length = names.length) :
    readTuple cls machine names (rowTexts row) = some (tupleOf names row) ↔
      ∀ v, some v ∈ row → ValueKept cls machine v := by
  rw [← forall₂_placeKept_iff]
  unfold PlaceKept
  rw [forall₂_comp, readTuple, Option.bind_eq_some_iff]
  refine exists_congr fun values => ?_
  rw [mapM_eq_some_iff]
  refine and_congr_right fun hvalues => ?_
  have hlength : values.length = names.length := by
    rw [← hvalues.length_eq, length_rowTexts, hrow]
  rw [if_pos hlength, Option.some.injEq, tuple_eq_iff hnodup hlength hrow]

end Rows

/-! ### The records of a file -/

section Records

variable {cls : CharClass} {csv : Codec}

/-- The lines of a table in the file. -/
def tableLines (t : Table cls) : List Line :=
  .plain (headerText t.schema) :: .printed (t.columns.map some) ::
    (t.rows.map (Line.printed ∘ printedRow) ++ [.plain []])

/-- The tables that are written. -/
def written (db : List (Table cls)) : List (Table cls) := db.filter fun t => !t.rows.isEmpty

/-- The records of a table. -/
def tableRecords (t : Table cls) : List (List Text) :=
  [headerText t.schema] :: t.columns :: (t.rows.map rowTexts ++ [[[]]])

theorem createTuplesFile_eq (db : List (Table cls)) :
    createTuplesFile csv db = ((written db).flatMap tableLines).flatMap csv.lineText := by
  rw [createTuplesFile, List.flatMap_assoc]
  induction db with
  | nil => rfl
  | cons t db ih =>
    rw [List.flatMap_cons, ih]
    by_cases hrows : t.rows = []
    · simp [tableText, written, hrows]
    · have ht : tableText csv t = (tableLines t).flatMap csv.lineText := by
        simp only [tableText, if_neg hrows, tableLines, List.flatMap_cons, List.flatMap_append,
          List.flatMap_map, Codec.lineText, Function.comp_apply, List.append_assoc,
          List.cons_append, List.nil_append, List.flatMap_nil, List.append_nil]
      rw [ht, written, written, List.filter_cons_of_pos (by simpa using hrows),
        List.flatMap_cons]

theorem map_fields_tableLines (t : Table cls) :
    (tableLines t).map Line.fields = tableRecords t := by
  simp [tableLines, tableRecords, Line.fields, rowTexts, Function.comp_def]

/-- What the lines of a file are made of beside the printed records. -/
def plainChar (cls : CharClass) (c : Char) : Bool := cls.word c || c = '#' || c = ' '

theorem wellFormed_tableLines (t : Table cls) :
    ∀ l ∈ tableLines t, l.WellFormed (plainChar cls) := by
  intro l hl
  simp only [tableLines, List.mem_cons, List.mem_append, List.mem_map, Function.comp_apply,
    List.not_mem_nil, or_false] at hl
  rcases hl with rfl | rfl | ⟨row, hrow, rfl⟩ | rfl
  · intro c hc
    simp only [headerText, List.mem_append] at hc
    rcases hc with (hc | hc) | hc
    · revert c
      simp [plainChar]
    · simp [plainChar, t.schema_word c hc]
    · revert c
      simp [plainChar]
  · refine ⟨by simpa using t.columns_ne, fun v hv => ?_⟩
    obtain ⟨name, hname, rfl⟩ : ∃ name ∈ t.columns, name = v := by simpa using hv
    exact newline_not_mem_word (t.columns_word name hname).2
  · have hne : row ≠ [] := by
      rw [← List.length_pos_iff, t.rows_length row hrow]
      exact List.length_pos_iff.mpr t.columns_ne
    refine ⟨by simpa [printedRow] using hne, fun v hv => ?_⟩
    obtain ⟨value, -, hvalue⟩ := List.mem_map.mp hv
    obtain ⟨w, -, rfl⟩ := Option.map_eq_some_iff.mp hvalue
    exact not_mem_deleteNewlines w
  · simp [Line.WellFormed]

/-- The file is read as the records of the tables that are written. -/
theorem getlines_createTuplesFile (hcsv : csv.Lawful (plainChar cls)) (db : List (Table cls)) :
    csv.getlines (createTuplesFile csv db) = (written db).flatMap tableRecords := by
  rw [createTuplesFile_eq, hcsv.getlines_lines, List.map_flatMap]
  · simp only [map_fields_tableLines]
  · intro l hl
    obtain ⟨t, -, hl⟩ := List.mem_flatMap.mp hl
    exact wellFormed_tableLines t l hl

end Records

/-! ### The loop -/

section Loop

variable {cls : CharClass} {machine : Machine} {csv : Codec} {st st' : Reading}
variable {row : List Text} {rows : List (List Text)}

/-- A record that begins a table. -/
def isHeader (cls : CharClass) (csv : Codec) (row : List Text) : Bool :=
  csv.combine row ≠ [] && (headerName cls (row.headD [])).isSome

theorem length_pushTuple {data data' : Data} {tuple : Tuple}
    (h : pushTuple data tuple = some data') : data'.length = data.length := by
  obtain ⟨last, hlast, rfl⟩ := Option.map_eq_some_iff.mp h
  obtain ⟨init, rfl⟩ := List.getLast?_eq_some_iff.mp hlast
  simp

/-- Only a header adds an entry. -/
theorem length_readRecord (h : readRecord cls machine csv st row = some st') :
    st'.data.length = st.data.length + if isHeader cls csv row then 1 else 0 := by
  unfold readRecord at h
  split at h
  · next hcombine =>
    obtain rfl := Option.some.inj h
    simp [isHeader, hcombine]
  · next hcombine =>
    split at h
    · next schema hheader =>
      obtain rfl := Option.some.inj h
      rw [isHeader, hheader]
      simp [hcombine]
    · next hheader =>
      have hnot : isHeader cls csv row = false := by
        rw [isHeader, hheader]
        simp
      rw [hnot]
      split at h
      · obtain rfl := Option.some.inj h
        rfl
      · obtain ⟨tuple, -, h⟩ := Option.bind_eq_some_iff.mp h
        obtain ⟨data, hdata, rfl⟩ := Option.map_eq_some_iff.mp h
        exact length_pushTuple hdata

theorem length_foldlM (h : rows.foldlM (readRecord cls machine csv) st = some st') :
    st'.data.length = st.data.length + rows.countP (isHeader cls csv) := by
  induction rows generalizing st with
  | nil =>
    obtain rfl := Option.some.inj h
    rfl
  | cons row rows ih =>
    obtain ⟨mid, hmid, h⟩ := Option.bind_eq_some_iff.mp h
    rw [ih h, length_readRecord hmid, List.countP_cons]
    split <;> omega

/-- The rows of a table that are read, as tuples. -/
def readRows (cls : CharClass) (machine : Machine) (csv : Codec) (names : List Text)
    (rows : List (List Text)) : Option (List Tuple) :=
  (rows.filter fun row => csv.combine row ≠ []).mapM (readTuple cls machine names)

theorem isHeader_eq_false_iff (hcombine : csv.combine row ≠ []) :
    isHeader cls csv row = false ↔ headerName cls (row.headD []) = none := by
  rw [isHeader]
  simp only [hcombine, ne_eq, not_false_eq_true, decide_true, Bool.true_and,
    Option.isSome_eq_false_iff, Option.isNone_iff_eq_none]

/-- A row that is read goes to the last table. -/
theorem readRecord_row (hrow : isHeader cls csv row = false) (hcombine : csv.combine row ≠ [])
    {names : List Text} (hnames : names ≠ []) (data : Data) (schema : Text)
    (tuples : List Tuple) :
    readRecord cls machine csv ⟨data ++ [(schema, tuples)], names⟩ row =
      (readTuple cls machine names row).map fun tuple =>
        ⟨data ++ [(schema, tuples ++ [tuple])], names⟩ := by
  have hheader := (isHeader_eq_false_iff hcombine).mp hrow
  simp only [readRecord, if_neg hcombine, hheader, if_neg hnames]
  cases readTuple cls machine names row with
  | none => rfl
  | some tuple => simp [pushTuple]

/-- Rows without a header among them go to the last table. -/
theorem foldlM_rows (hrows : ∀ row ∈ rows, isHeader cls csv row = false) {names : List Text}
    (hnames : names ≠ []) (data : Data) (schema : Text) (tuples : List Tuple) :
    rows.foldlM (readRecord cls machine csv) ⟨data ++ [(schema, tuples)], names⟩ =
      (readRows cls machine csv names rows).map fun more =>
        ⟨data ++ [(schema, tuples ++ more)], names⟩ := by
  induction rows generalizing tuples with
  | nil => simp [readRows]
  | cons row rows ih =>
    obtain ⟨hrow, hrows⟩ := List.forall_mem_cons.mp hrows
    rw [List.foldlM_cons]
    by_cases hcombine : csv.combine row = []
    · have hskip : readRecord cls machine csv ⟨data ++ [(schema, tuples)], names⟩ row =
          some ⟨data ++ [(schema, tuples)], names⟩ := if_pos hcombine
      have hfilter : readRows cls machine csv names (row :: rows) =
          readRows cls machine csv names rows := by
        rw [readRows, List.filter_cons_of_neg (by simpa using hcombine), readRows]
      rw [hskip, hfilter]
      exact ih hrows tuples
    · rw [readRecord_row hrow hcombine hnames, readRows,
        List.filter_cons_of_pos (by simpa using hcombine), List.mapM_cons]
      cases htuple : readTuple cls machine names row with
      | none => rfl
      | some tuple =>
        refine (ih hrows (tuples ++ [tuple])).trans ?_
        rw [readRows]
        cases (rows.filter fun row => csv.combine row ≠ []).mapM (readTuple cls machine names) with
        | none => rfl
        | some more => simp

end Loop

/-! ### The tables -/

section Tables

variable {cls : CharClass} {machine : Machine} {csv : Codec} {t : Table cls}
variable {ts : List (Table cls)}

theorem headerName_columns (t : Table cls) : headerName cls (t.columns.headD []) = none := by
  obtain ⟨name, names, hnames⟩ := List.exists_cons_of_ne_nil t.columns_ne
  rw [hnames]
  exact headerName_word (t.columns_word name (hnames ▸ List.mem_cons_self)).2

variable (hcsv : csv.Lawful (plainChar cls))

include hcsv

theorem combine_header_ne (t : Table cls) : csv.combine [headerText t.schema] ≠ [] := by
  rw [ne_eq, hcsv.combine_eq_nil _ (by simp)
    (by simpa using newline_not_mem_headerText t.schema_word)]
  simp [headerText]

theorem combine_columns_ne (t : Table cls) : csv.combine t.columns ≠ [] := by
  rw [ne_eq, hcsv.combine_eq_nil _ t.columns_ne
    fun name hname => newline_not_mem_word (t.columns_word name hname).2]
  intro h
  exact (t.columns_word [] (h ▸ List.mem_cons_self)).1 rfl

theorem combine_blank : csv.combine [[]] = [] := by
  rw [hcsv.combine_eq_nil _ (by simp) (by simp)]

theorem combine_rowTexts_iff {row : List (Option Text)} (hrow : row ∈ t.rows) :
    csv.combine (rowTexts row) = [] ↔ rowTexts row = [[]] := by
  refine hcsv.combine_eq_nil _ ?_ ?_
  · rw [← List.length_pos_iff, length_rowTexts, t.rows_length row hrow]
    exact List.length_pos_iff.mpr t.columns_ne
  · intro text htext
    obtain ⟨value, hvalue, rfl⟩ := List.mem_map.mp htext
    obtain ⟨v, -, rfl⟩ := List.mem_map.mp hvalue
    cases v with
    | none => simp
    | some v => exact not_mem_deleteNewlines v

/-- Every table brings its own header, and the headers among its rows. -/
theorem countP_tableRecords (t : Table cls) :
    (tableRecords t).countP (isHeader cls csv) =
      1 + (t.rows.map rowTexts).countP (isHeader cls csv) := by
  have hheader : isHeader cls csv [headerText t.schema] = true := by
    rw [isHeader, List.headD_cons, headerName_headerText t.schema_word t.schema_ne]
    simpa using combine_header_ne hcsv t
  have hcolumns : isHeader cls csv t.columns = false := by
    rw [isHeader, headerName_columns t]
    simp
  have hblank : isHeader cls csv [[]] = false := by
    rw [isHeader, combine_blank hcsv]
    simp
  rw [tableRecords, List.countP_cons_of_pos hheader,
    List.countP_cons_of_neg (by simp [hcolumns]), List.countP_append,
    List.countP_cons_of_neg (by simp [hblank]), List.countP_nil]
  omega

/-- As many headers as tables: then no row is one. -/
theorem not_isHeader_of_countP
    (h : (ts.flatMap tableRecords).countP (isHeader cls csv) = ts.length) :
    ∀ t ∈ ts, ∀ row ∈ t.rows, isHeader cls csv (rowTexts row) = false := by
  have hsum : ∀ ts : List (Table cls), (ts.flatMap tableRecords).countP (isHeader cls csv) =
      ts.length + (ts.flatMap fun t => t.rows.map rowTexts).countP (isHeader cls csv) := by
    intro ts
    induction ts with
    | nil => rfl
    | cons t ts ih =>
      rw [List.flatMap_cons, List.countP_append, ih, countP_tableRecords hcsv, List.flatMap_cons,
        List.countP_append, List.length_cons]
      omega
  have hzero : (ts.flatMap fun t => t.rows.map rowTexts).countP (isHeader cls csv) = 0 := by
    have := hsum ts
    omega
  intro t ht row hrow
  have := List.countP_eq_zero.mp hzero (rowTexts row)
    (List.mem_flatMap.mpr ⟨t, ht, List.mem_map_of_mem hrow⟩)
  simpa using this

/-- What is read from the records of a table. -/
theorem foldlM_tableRecords (hrows : ∀ row ∈ t.rows, isHeader cls csv (rowTexts row) = false)
    (st : Reading) :
    (tableRecords t).foldlM (readRecord cls machine csv) st =
      (readRows cls machine csv t.columns (t.rows.map rowTexts)).map fun tuples =>
        ⟨st.data ++ [(t.schema, tuples)], t.columns⟩ := by
  have hheader : readRecord cls machine csv st [headerText t.schema] =
      some ⟨st.data ++ [(t.schema, [])], []⟩ := by
    simp only [readRecord, if_neg (combine_header_ne hcsv t), List.headD_cons,
      headerName_headerText t.schema_word t.schema_ne]
  have hcolumns : readRecord cls machine csv ⟨st.data ++ [(t.schema, [])], []⟩ t.columns =
      some ⟨st.data ++ [(t.schema, [])], t.columns⟩ := by
    simp only [readRecord, if_neg (combine_columns_ne hcsv t), headerName_columns t, if_pos]
  have hblank : ∀ st : Reading, readRecord cls machine csv st [[]] = some st := fun st =>
    if_pos (combine_blank hcsv)
  have hbody : (t.rows.map rowTexts).foldlM (readRecord cls machine csv)
      ⟨st.data ++ [(t.schema, [])], t.columns⟩ = _ :=
    foldlM_rows (List.forall_mem_map.mpr hrows) t.columns_ne st.data t.schema []
  rw [tableRecords, List.foldlM_cons, hheader, Option.bind_eq_bind, Option.bind_some,
    List.foldlM_cons, hcolumns, Option.bind_eq_bind, Option.bind_some, List.foldlM_append, hbody]
  cases readRows cls machine csv t.columns (t.rows.map rowTexts) with
  | none => rfl
  | some tuples => simp [hblank]

/-- The tables are read one after another. -/
theorem foldlM_tables
    (hrows : ∀ t ∈ ts, ∀ row ∈ t.rows, isHeader cls csv (rowTexts row) = false) (st : Reading) :
    ((ts.flatMap tableRecords).foldlM (readRecord cls machine csv) st).map Reading.data =
      (ts.mapM fun t => (readRows cls machine csv t.columns (t.rows.map rowTexts)).map
        (Prod.mk t.schema)).map (st.data ++ ·) := by
  induction ts generalizing st with
  | nil => simp
  | cons t ts ih =>
    obtain ⟨hrow, hrows⟩ := List.forall_mem_cons.mp hrows
    rw [List.flatMap_cons, List.foldlM_append, foldlM_tableRecords hcsv hrow, List.mapM_cons]
    cases readRows cls machine csv t.columns (t.rows.map rowTexts) with
    | none => rfl
    | some tuples =>
      refine (ih hrows _).trans ?_
      cases ts.mapM fun t => (readRows cls machine csv t.columns (t.rows.map rowTexts)).map
        (Prod.mk t.schema) with
      | none => rfl
      | some data => simp

/-- A table whose rows are no headers is read as it was exactly if each row is kept. -/
theorem readRows_iff (hrows : ∀ row ∈ t.rows, isHeader cls csv (rowTexts row) = false) :
    readRows cls machine csv t.columns (t.rows.map rowTexts) =
        some (t.rows.map (tupleOf t.columns)) ↔
      ∀ row ∈ t.rows, RowKept cls machine row := by
  rw [readRows, List.filter_map, List.mapM_map, filter_mapM_eq_some_map_iff]
  refine forall₂_congr fun row hrow => ?_
  simp only [Function.comp_apply, ne_eq, decide_eq_true_iff, RowKept,
    combine_rowTexts_iff hcsv hrow, readTuple_iff t.columns_nodup (t.rows_length row hrow)]
  refine and_congr_right fun hne => (and_iff_right ?_).symm
  exact (isHeader_eq_false_iff (mt (combine_rowTexts_iff hcsv hrow).mp hne)).mp (hrows row hrow)

/-- Rows that are kept are no headers. -/
theorem not_isHeader_of_kept {row : List (Option Text)} (h : RowKept cls machine row)
    (hrow : row ∈ t.rows) : isHeader cls csv (rowTexts row) = false :=
  (isHeader_eq_false_iff (mt (combine_rowTexts_iff hcsv hrow).mp h.1)).mpr h.2.1

/-- The reading gives back the database exactly if every row of every table is kept. -/
theorem dump_read_iff (db : List (Table cls)) :
    getDataFromFile cls machine csv (createTuplesFile csv db) = some (contents db) ↔
      ∀ t ∈ db, ∀ row ∈ t.rows, RowKept cls machine row := by
  have hwritten : (∀ t ∈ db, ∀ row ∈ t.rows, RowKept cls machine row) ↔
      ∀ t ∈ written db, ∀ row ∈ t.rows, RowKept cls machine row := by
    constructor
    · exact fun h t ht => h t (List.mem_filter.mp ht).1
    · intro h t ht row hrow
      have hne : (!t.rows.isEmpty) = true := by
        cases hrows : t.rows with
        | nil => simp [hrows] at hrow
        | cons => rfl
      exact h t (List.mem_filter.mpr ⟨ht, hne⟩) row hrow
  have hread (hrows : ∀ t ∈ written db, ∀ row ∈ t.rows,
      isHeader cls csv (rowTexts row) = false) :
      getDataFromFile cls machine csv (createTuplesFile csv db) = some (contents db) ↔
        ∀ t ∈ written db, ∀ row ∈ t.rows, RowKept cls machine row := by
    rw [getDataFromFile, getlines_createTuplesFile hcsv, foldlM_tables hcsv hrows]
    simp only [List.nil_append, Option.map_id']
    rw [contents, ← written, mapM_eq_some_map_iff]
    refine forall₂_congr fun t ht => ?_
    rw [← readRows_iff hcsv (hrows t ht), Option.map_eq_some_iff]
    simp
  rw [hwritten]
  constructor
  · intro h
    refine (hread (not_isHeader_of_countP hcsv ?_)).mp h
    rw [getDataFromFile, getlines_createTuplesFile hcsv, Option.map_eq_some_iff] at h
    obtain ⟨st, hst, hdata⟩ := h
    have := length_foldlM hst
    rw [hdata, contents, ← written, List.length_map] at this
    simpa using this.symm
  · intro h
    exact (hread fun t ht row hrow => not_isHeader_of_kept hcsv (h t ht row hrow) hrow).mpr h

end Tables

/-! ### Two databases -/

section Databases

/-- `sep_char => "\t", quote_char => "`"`; the escape character is the default one. -/
def tuplesDialect : Dialect where
  sep := '\t'
  quote := '`'
  escape := '"'
  sep_ne_newline := by decide
  quote_ne_newline := by decide
  quote_ne_sep := by decide
  escape_ne_quote := by decide

theorem lawful_tuplesDialect : tuplesDialect.codec.Lawful (plainChar ascii) := by
  refine Dialect.lawful fun c hc => Dialect.isBare_iff.mpr ?_
  refine ⟨?_, ?_, ?_, ?_⟩ <;> rintro rfl <;> revert hc <;> decide

/-- A machine without files, at the start of 1970. -/
def bareMachine : Machine where
  contents _ := none
  localtime := ⟨0, 0, 0, 1, 0, 70⟩

/-- A `configs` table with one row. -/
def configsTable (key : String) (value : Option String) : Table ascii where
  schema := "Config".toList
  columns := ["key".toList, "value".toList]
  rows := [[some key.toList, value.map String.toList]]
  schema_ne := by decide
  schema_word := List.all_eq_true.mp (by decide)
  columns_ne := by decide
  columns_nodup := by decide
  columns_word name hname := by
    rcases List.mem_pair.mp hname with rfl | rfl <;>
      exact ⟨by decide, List.all_eq_true.mp (by decide)⟩
  rows_length row hrow := by
    rw [List.mem_singleton.mp hrow]
    rfl

/-- A column that is NULL stays away. -/
theorem dump_read_iff_null :
    getDataFromFile ascii bareMachine tuplesDialect.codec
        (createTuplesFile tuplesDialect.codec [configsTable "l7r.port" none]) =
      some (contents [configsTable "l7r.port" none]) := by
  refine (dump_read_iff lawful_tuplesDialect _).mpr fun t ht row hrow => ?_
  obtain rfl := List.mem_singleton.mp ht
  obtain rfl := List.mem_singleton.mp hrow
  refine ⟨by decide, by decide, fun v hv => ?_⟩
  obtain rfl : v = "l7r.port".toList := by simpa [configsTable] using hv
  decide

/-- The line breaks of a certificate are lost. -/
theorem certificate_loses_line_breaks :
    tuplesDialect.codec.Lawful (plainChar ascii) ∧
      getDataFromFile ascii bareMachine tuplesDialect.codec
          (createTuplesFile tuplesDialect.codec
            [configsTable "l7r.ssl.cert" (some "-----BEGIN\nMIIB\n-----END")]) ≠
        some (contents [configsTable "l7r.ssl.cert" (some "-----BEGIN\nMIIB\n-----END")]) := by
  refine ⟨lawful_tuplesDialect, fun h => ?_⟩
  have hvalue := congrArg
    (Option.map (List.map fun e => e.2.map fun tuple => tuple "value".toList)) h
  revert hvalue
  decide

end Databases

end Qvd.DumpRoundTrip
