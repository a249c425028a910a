import Qvd.FilterPaths
import Qvd.LikePatterns
import Qvd.PortalParameters
import Qvd.Verdicts

/-!
Filters evaluated on rows in memory, `cgrep`, against the selection that the same tree makes in
the database.
-/
namespace Qvd.FilterGrep

open LineText PerlNumbers RestFilter PortalParameters LikePatterns Verdicts

/-! ### The evaluation -/

section Evaluation

/-- The columns of a row, undef if they are not defined. -/
abbrev Row := Text → Option Text

/-- A reference in a comparison is its address, as a text and as a number. -/
structure References where
  text : Json → Text
  number : Json → Number

variable (refs : References)

def asText : Json → Text
  | .null => []
  | .bool b => if b then ['1'] else ['0']
  | .scalar t => t
  | value => refs.text value

def asNumber : Json → Number
  | .array items => refs.number (.array items)
  | .hash entries => refs.number (.hash entries)
  | value => numify (asText refs value)

/-- `/^(%?)(.*?)(%?)$/`, all undef if it does not match. -/
def splitPattern (sub : Text) : Bool × Text × Bool :=
  let t := chomped sub
  if t.contains '\n' then (false, [], false)
  else
    let lead := t.head? == some '%'
    let t := if lead then t.tail else t
    let trail := t.getLast? == some '%'
    (lead, if trail then t.dropLast else t, trail)

/-- `$`. -/
def atEnd (t : Text) : Bool := t == [] || t == ['\n']

/-- `_include`. An empty regular expression stands for the last one that matched, that of
`splitPattern`. -/
def includes (x sub : Text) : Bool :=
  let (lead, core, trail) := splitPattern sub
  if lead && core.isEmpty && trail then !(chomped x).contains '\n'
  else (if lead then x.tails else [x]).any fun y =>
    core.isPrefixOf y && (trail || atEnd (y.drop core.length))

inductive Operator
  | gt | lt | le | ge | eq | angle | ne | pattern
deriving DecidableEq

/-- `%COMPARISON_OPERATORS`; `<>` is `!=` of numbers. -/
def comparisonTable : List (Text × Operator) :=
  [(">".toList, .gt), ("<".toList, .lt), ("<=".toList, .le), (">=".toList, .ge), ("=".toList, .eq),
    ("<>".toList, .angle), ("!=".toList, .ne), ("~".toList, .pattern), ("LIKE".toList, .pattern)]

/-- The comparisons of numbers; no number is in order with what is none. -/
def Operator.ofNumbers (a b : Number) : Operator → Bool
  | .gt => b.lt a
  | .lt => a.lt b
  | .le => a.lt b || a.eq b
  | .ge => b.lt a || a.eq b
  | .angle => !a.eq b
  | _ => false

def Operator.apply (x : Text) (value : Json) : Operator → Bool
  | .eq => x == asText refs value
  | .ne => x != asText refs value
  | .pattern => includes x (asText refs value)
  | op => op.ofNumbers (numify x) (asNumber refs value)

/-- `_evaluate_expression`; a text that is no operator cannot be called. -/
def evaluateExpression (x op : Text) (value : Json) : Option Bool :=
  (comparisonTable.lookup op).map fun operator => operator.apply refs x value

/-- Any of the values. -/
def anyValue (x op : Text) : List Json → Option Bool
  | [] => some false
  | value :: rest => (evaluateExpression refs x op value).bind fun b =>
    if b then some true else anyValue x op rest

variable (row : Row)

/-- The loops of `_satisfy`: that of `-and` goes on while the members are satisfied, those of
`-or` and `-not` while they are not. A comparison under a logical key, or a group under another,
is a death. -/
def satisfyItems (all : Bool) : Filters → Option Bool
  | .nil => some all
  | .leaf key op values rest =>
    if key ∈ logicalOperators then none
    else
      match row key with
      | none => if all then some false else satisfyItems all rest
      | some x => (anyValue refs x op values).bind fun b =>
        if b = all then satisfyItems all rest else some (!all)
  | .group key items rest =>
    (if key = "-and".toList then satisfyItems true items
    else if key = "-or".toList then satisfyItems false items
    else if key = "-not".toList then (satisfyItems false items).map (!·)
    else if (row key).isSome then none else some false).bind fun b =>
      if b = all then satisfyItems all rest else some (!all)

/-- `cgrep`, of a filter whose root has these items. -/
def cgrep (items : Filters) : List Row → Option (List Row)
  | [] => some []
  | row :: rows => (satisfyItems refs row true items).bind fun b =>
    (cgrep items rows).map fun rest => if b then row :: rest else rest

end Evaluation

/-! ### The selection -/

section Selection

/-- A sign, digits with or without a point, and an exponent. -/
def isNumeral (t : Text) : Bool :=
  let t := (sign t).2
  let ints := t.takeWhile Char.isDigit
  let rest := t.dropWhile Char.isDigit
  let hasPoint := rest.head? == some '.'
  let fraction := if hasPoint then rest.tail.takeWhile Char.isDigit else []
  let rest := if hasPoint then rest.tail.dropWhile Char.isDigit else rest
  !(ints ++ fraction).isEmpty && match rest with
    | [] => true
    | c :: t => (c == 'e' || c == 'E') && !(sign t).2.isEmpty && (sign t).2.all Char.isDigit

/-- The number that a numeral stands for. -/
def numeral (t : Text) : Option ℚ :=
  if isNumeral t then
    match numify t with
    | .finite q => some q
    | _ => none
  else none

/-- A value as a text; null is none. -/
def valueText : Json → Option Text
  | .bool b => some (if b then ['1'] else ['0'])
  | .scalar t => some t
  | _ => none

/-- The order of two numbers; only numerals have one. -/
def inOrder (order : ℚ → ℚ → Bool) (x : Text) (value : Option Text) : Bool :=
  match numeral x, value.bind numeral with
  | some p, some q => order p q
  | _, _ => false

/-- What the operators mean in the database, for a column that is defined. -/
def Operator.selects (x : Text) (value : Option Text) : Operator → Bool
  | .eq => value == some x
  | .ne | .angle => value != some x
  | .lt => inOrder (fun p q => p < q) x value
  | .gt => inOrder (fun p q => q < p) x value
  | .le => inOrder (fun p q => p ≤ q) x value
  | .ge => inOrder (fun p q => q ≤ p) x value
  | .pattern => value.any fun pattern => like pattern x

def selectsValue (x op : Text) (value : Json) : Bool :=
  (comparisonTable.lookup op).any fun operator => operator.selects x (valueText value)

variable (row : Row)

/-- The text of a column that is defined. -/
def column (key : Text) : Text := (row key).getD []

/-- Any of the values of a comparison. -/
def selectsAny (key op : Text) (values : List Json) : Bool :=
  verdict false (values.map (selectsValue (column row key) op))

/-- `-not` denies what `-or` says. -/
def groupVerdict (key : Text) (members : List Bool) : Bool :=
  if key = "-and".toList then verdict true members
  else if key = "-or".toList then verdict false members
  else !verdict false members

/-- The verdicts on the members of a level. -/
def selected : Filters → List Bool
  | .nil => []
  | .leaf key op values rest => selectsAny row key op values :: selected rest
  | .group key items rest => groupVerdict key (selected items) :: selected rest

/-- The rows that the tree selects. -/
def select (items : Filters) (rows : List Row) : List Row :=
  rows.filter fun row => verdict true (selected row items)

def isValue : Json → Bool
  | .array _ | .hash _ => false
  | _ => true

/-- The normal form of a filter whose values are no structures themselves. -/
def Normalised : Filters → Prop
  | .nil => True
  | .leaf key op values rest => key ∉ logicalOperators ∧ op ∈ comparisonOperators ∧
      (∀ value ∈ values, isValue value = true) ∧ Normalised rest
  | .group key items rest => key ∈ logicalOperators ∧ Normalised items ∧ Normalised rest

/-- A filter and the rows it is put to, with its columns defined. -/
structure Search where
  items : Filters
  rows : List Row
  normalised : Normalised items
  defined : ∀ row ∈ rows, ∀ key ∈ FilterPaths.leafKeys items, (row key).isSome

end Selection

/-! ### Where they differ -/

section Differences

/-- A pattern with all between its first and its last percent sign taken as it is, as far as the
regular expression for it matched. -/
def literally (pattern : Text) : Text :=
  let (lead, core, trail) := splitPattern pattern
  (if lead then ['%'] else []) ++ (escape core ++ if trail then ['%'] else [])

/-- The pattern so taken matches the text, or the text without a line feed at its end. With `%%`
the regular expression is empty. -/
def TakenLiterally (x pattern : Text) : Prop :=
  if chomped pattern = "%%".toList then '\n' ∉ chomped x
  else like (literally pattern) x = true ∨
    ∃ y, x = y ++ ['\n'] ∧ like (literally pattern) y = true

/-- A comparison is judged as in the database. Null is treated as the empty text, texts that are no
numerals are in order as numbers all the same, and `<>` compares numbers. -/
def Judged (x : Text) (value : Option Text) : Operator → Prop
  | .eq | .ne => value = none → x ≠ []
  | .angle => value = some x ↔ (numify x).eq (numify (value.getD [])) = true
  | .pattern =>
    (value.any fun pattern => like pattern x) = true ↔ TakenLiterally x (value.getD [])
  | op => (numeral x).isSome ∧ (value.bind numeral).isSome ∨
      op.ofNumbers (numify x) (numify (value.getD [])) = false

def JudgedValue (x op : Text) (value : Json) : Prop :=
  ∀ operator, comparisonTable.lookup op = some operator → Judged x (valueText value) operator

variable (row : Row)

/-- The values of a comparison: which are right, and which are misjudged. -/
def valueMembers (key op : Text) (values : List Json) : List (Bool × Prop) :=
  values.map fun value =>
    (selectsValue (column row key) op value, ¬JudgedValue (column row key) op value)

/-- The members of a level: which are right, and which are misjudged. -/
def members : Filters → List (Bool × Prop)
  | .nil => []
  | .leaf key op values rest =>
    (selectsAny row key op values, Misjudged false (valueMembers row key op values)) ::
      members rest
  | .group key items rest =>
    (groupVerdict key (selected row items), Misjudged (key = "-and".toList) (members items)) ::
      members rest

end Differences

/-! ### The patterns -/

section Patterns

variable {x p : Text} {lead trail : Bool} {core : Text}

theorem like_trail : like (if trail then ['%'] else []) x = true ↔ trail = true ∨ x = [] := by
  cases trail with
  | false => simp [like_nil]
  | true =>
    refine iff_of_true (like_percent.mpr ⟨x, [], (List.append_nil x).symm, ?_⟩) (.inl rfl)
    exact like_nil.mpr rfl

theorem like_core : like ((if lead then ['%'] else []) ++
      (escape core ++ if trail then ['%'] else [])) x = true ↔
    ∃ front back, x = front ++ (core ++ back) ∧ (lead = true ∨ front = []) ∧
      (trail = true ∨ back = []) := by
  have hcore (y : Text) : like (escape core ++ if trail then ['%'] else []) y = true ↔
      ∃ back, y = core ++ back ∧ (trail = true ∨ back = []) := by
    rw [like_escape_append]
    exact exists_congr fun back => and_congr_right fun _ => like_trail
  cases lead with
  | false =>
    refine (hcore x).trans ⟨?_, ?_⟩
    · rintro ⟨back, hx, hback⟩
      exact ⟨[], back, hx, .inr rfl, hback⟩
    · rintro ⟨front, back, hx, hfront, hback⟩
      obtain rfl := hfront.resolve_left Bool.false_ne_true
      exact ⟨back, hx, hback⟩
  | true =>
    refine like_percent.trans ⟨?_, ?_⟩
    · rintro ⟨front, y, rfl, hy⟩
      obtain ⟨back, rfl, hback⟩ := (hcore y).mp hy
      exact ⟨front, back, rfl, .inl rfl, hback⟩
    · rintro ⟨front, back, rfl, -, hback⟩
      exact ⟨front, core ++ back, rfl, (hcore _).mpr ⟨back, rfl, hback⟩⟩

theorem atEnd_iff : atEnd x = true ↔ x = [] ∨ x = ['\n'] := by
  simp [atEnd]

theorem matches_iff : ((if lead then x.tails else [x]).any fun y =>
      core.isPrefixOf y && (trail || atEnd (y.drop core.length))) = true ↔
    ∃ front back, x = front ++ (core ++ back) ∧ (lead = true ∨ front = []) ∧
      (trail = true ∨ back = [] ∨ back = ['\n']) := by
  have hstart (y : Text) : (core.isPrefixOf y && (trail || atEnd (y.drop core.length))) = true ↔
      ∃ back, y = core ++ back ∧ (trail = true ∨ back = [] ∨ back = ['\n']) := by
    rw [Bool.and_eq_true, List.isPrefixOf_iff_prefix, Bool.or_eq_true, atEnd_iff]
    constructor
    · rintro ⟨⟨back, rfl⟩, hback⟩
      rw [List.drop_left] at hback
      exact ⟨back, rfl, hback⟩
    · rintro ⟨back, rfl, hback⟩
      rw [List.drop_left]
      exact ⟨List.prefix_append core back, hback⟩
  rw [List.any_eq_true]
  simp only [hstart]
  cases lead with
  | false =>
    constructor
    · rintro ⟨y, hy, back, rfl, hback⟩
      obtain rfl := List.mem_singleton.mp hy
      exact ⟨[], back, rfl, .inr rfl, hback⟩
    · rintro ⟨front, back, hx, hfront, hback⟩
      obtain rfl := hfront.resolve_left Bool.false_ne_true
      exact ⟨x, List.mem_singleton_self x, back, hx, hback⟩
  | true =>
    constructor
    · rintro ⟨y, hy, back, rfl, hback⟩
      obtain ⟨front, rfl⟩ := (List.mem_tails _ _).mp hy
      exact ⟨front, back, rfl, .inl rfl, hback⟩
    · rintro ⟨front, back, rfl, -, hback⟩
      exact ⟨core ++ back, (List.mem_tails _ _).mpr (List.suffix_append front _), back, rfl, hback⟩

theorem splitPattern_empty : splitPattern p = (true, [], true) ↔ chomped p = "%%".toList := by
  unfold splitPattern
  generalize chomped p = t
  constructor
  · intro h
    dsimp only at h
    split_ifs at h with hline hlead htrail
    · cases h
    · obtain ⟨-, hcore, -⟩ := by simpa using h
      obtain ⟨u, rfl⟩ := List.head?_eq_some_iff.mp (beq_iff_eq.mp hlead)
      obtain ⟨v, hv⟩ := List.getLast?_eq_some_iff.mp (beq_iff_eq.mp htrail)
      rw [List.tail_cons] at hv hcore
      rw [hv, List.dropLast_concat] at hcore
      rw [hv, hcore]
      rfl
    · simp_all
    · simp_all
    · simp_all
  · rintro rfl
    decide

/-- What `_include` makes of a pattern. -/
theorem includes_iff : includes x p = true ↔ TakenLiterally x p := by
  unfold TakenLiterally
  by_cases hempty : splitPattern p = (true, [], true)
  · rw [if_pos (splitPattern_empty.mp hempty)]
    unfold includes
    rw [hempty]
    simp
  · rw [if_neg fun h => hempty (splitPattern_empty.mpr h)]
    unfold includes literally
    rcases hsplit : splitPattern p with ⟨lead, core, trail⟩
    have hregex : ¬(lead && core.isEmpty && trail) = true := by
      intro h
      refine hempty ?_
      simp only [Bool.and_eq_true, List.isEmpty_iff] at h
      rw [hsplit, h.1.1, h.1.2, h.2]
    dsimp only
    rw [if_neg hregex, matches_iff, like_core]
    simp only [like_core]
    constructor
    · rintro ⟨front, back, rfl, hfront, htrail | rfl | rfl⟩
      · exact .inl ⟨front, back, rfl, hfront, .inl htrail⟩
      · exact .inl ⟨front, [], rfl, hfront, .inr rfl⟩
      · refine .inr ⟨front ++ (core ++ []), by simp, front, [], rfl, hfront, .inr rfl⟩
    · rintro (⟨front, back, rfl, hfront, hback⟩ | ⟨_, rfl, front, back, rfl, hfront, hback⟩)
      · exact ⟨front, back, rfl, hfront, hback.imp_right .inl⟩
      · refine ⟨front, back ++ ['\n'], by simp, hfront, hback.imp_right fun h => .inr ?_⟩
        rw [h, List.nil_append]

/-- The parts of a pattern of one line. -/
theorem splitPattern_append (hline : '\n' ∉ p) (hsplit : splitPattern p = (lead, core, trail)) :
    p = (if lead then ['%'] else []) ++ (core ++ if trail then ['%'] else []) := by
  have hend (t : Text) : t = (if t.getLast? == some '%' then t.dropLast else t) ++
      if t.getLast? == some '%' then ['%'] else [] := by
    split_ifs with hlast
    · obtain ⟨u, rfl⟩ := List.getLast?_eq_some_iff.mp (beq_iff_eq.mp hlast)
      rw [List.dropLast_concat]
    · rw [List.append_nil]
  unfold splitPattern at hsplit
  rw [chomped_of_not_mem hline] at hsplit
  dsimp only at hsplit
  rw [if_neg (by simpa using hline)] at hsplit
  obtain ⟨rfl, hrest⟩ := Prod.mk.inj hsplit
  obtain ⟨rfl, rfl⟩ := Prod.mk.inj hrest
  rw [← hend]
  split_ifs with hlead
  · obtain ⟨u, rfl⟩ := List.head?_eq_some_iff.mp (beq_iff_eq.mp hlead)
    rfl
  · rfl

/-- A pattern with nothing to be taken literally between its percent signs is judged as in the
database, on texts of one line. -/
theorem judged_of_plain (hline : '\n' ∉ p) (hx : '\n' ∉ x)
    (hcore : ∀ c ∈ (splitPattern p).2.1, isSpecial c = false) : Judged x (some p) .pattern := by
  have hsame : like p x = true ↔ like (literally p) x = true := by
    unfold literally
    rcases hsplit : splitPattern p with ⟨lead, core, trail⟩
    rw [hsplit] at hcore
    have hback (y : Text) : like (core ++ if trail then ['%'] else []) y = true ↔
        like (escape core ++ if trail then ['%'] else []) y = true :=
      (like_plain_append hcore).trans like_escape_append.symm
    rw [splitPattern_append hline hsplit]
    cases lead with
    | false => exact hback x
    | true =>
      refine like_percent.trans (Iff.trans ?_ like_percent.symm)
      exact exists_congr fun _ => exists_congr fun y => and_congr_right fun _ => hback y
  change like p x = true ↔ TakenLiterally x p
  unfold TakenLiterally
  split_ifs with hempty
  · rw [chomped_of_not_mem hline] at hempty
    rw [chomped_of_not_mem hx, hempty]
    refine iff_of_true (like_percent.mpr ⟨[], x, rfl, ?_⟩) hx
    exact like_percent.mpr ⟨x, [], (List.append_nil x).symm, rfl⟩
  · refine hsame.trans ⟨.inl, ?_⟩
    rintro (h | ⟨y, rfl, -⟩)
    · exact h
    · exact absurd (List.mem_append_right y (List.mem_singleton_self _)) hx

end Patterns

/-! ### The comparisons -/

section Comparisons

variable {refs : References} {x op : Text} {value : Option Text} {v : Json}

theorem asText_eq (h : isValue v = true) : asText refs v = (valueText v).getD [] := by
  cases v with
  | null => rfl
  | bool b => rfl
  | scalar t => rfl
  | array items => cases h
  | hash entries => cases h

theorem asNumber_eq (h : isValue v = true) :
    asNumber refs v = numify ((valueText v).getD []) := by
  cases v with
  | null => rfl
  | bool b => rfl
  | scalar t => rfl
  | array items => cases h
  | hash entries => cases h

theorem numify_of_numeral {t : Text} {q : ℚ} (h : numeral t = some q) : numify t = .finite q := by
  unfold numeral at h
  split_ifs at h
  split at h
  · rename_i hfinite
    rw [hfinite, Option.some.inj h]
  · cases h

/-- The comparisons in order. -/
theorem order_iff {order : ℚ → ℚ → Bool} {operator : Operator}
    (horder : ∀ p q, operator.ofNumbers (.finite p) (.finite q) = order p q) :
    operator.ofNumbers (numify x) (numify (value.getD [])) = inOrder order x value ↔
      (numeral x).isSome ∧ (value.bind numeral).isSome ∨
        operator.ofNumbers (numify x) (numify (value.getD [])) = false := by
  unfold inOrder
  cases hx : numeral x with
  | none => simp
  | some p =>
    cases hvalue : value.bind numeral with
    | none => simp
    | some q =>
      obtain ⟨t, rfl, ht⟩ := Option.bind_eq_some_iff.mp hvalue
      refine iff_of_true ?_ (.inl ⟨rfl, rfl⟩)
      rw [numify_of_numeral hx, Option.getD_some, numify_of_numeral ht, horder]

theorem apply_eq_iff (h : isValue v = true) (operator : Operator) :
    operator.apply refs x v = operator.selects x (valueText v) ↔
      Judged x (valueText v) operator := by
  have htext : asText refs v = _ := asText_eq h
  have hnumber : asNumber refs v = _ := asNumber_eq h
  generalize valueText v = value at htext hnumber
  have hequal : (x == value.getD []) = (value == some x) ↔ (value = none → x ≠ []) := by
    cases value with
    | none => simp
    | some t => simp [Bool.beq_comm, eq_comm]
  cases operator with
  | eq =>
    change (x == asText refs v) = (value == some x) ↔ (value = none → x ≠ [])
    rw [htext]
    exact hequal
  | ne =>
    change (!(x == asText refs v)) = !(value == some x) ↔ (value = none → x ≠ [])
    rw [htext, Bool.not_inj_iff]
    exact hequal
  | angle =>
    change (!(numify x).eq (asNumber refs v)) = !(value == some x) ↔
      (value = some x ↔ (numify x).eq (numify (value.getD [])) = true)
    rw [hnumber, Bool.not_inj_iff, Bool.eq_iff_iff, beq_iff_eq]
    exact Iff.comm
  | pattern =>
    change includes x (asText refs v) = (value.any fun pattern => like pattern x) ↔
      ((value.any fun pattern => like pattern x) = true ↔ TakenLiterally x (value.getD []))
    rw [htext, Bool.eq_iff_iff, includes_iff]
    exact Iff.comm
  | lt =>
    change Operator.ofNumbers (numify x) (asNumber refs v) .lt = _ ↔ _
    rw [hnumber]
    exact order_iff fun p q => rfl
  | gt =>
    change Operator.ofNumbers (numify x) (asNumber refs v) .gt = _ ↔ _
    rw [hnumber]
    exact order_iff fun p q => rfl
  | le =>
    change Operator.ofNumbers (numify x) (asNumber refs v) .le = _ ↔ _
    rw [hnumber]
    refine order_iff fun p q => ?_
    simp [Operator.ofNumbers, Number.lt, Number.eq, le_iff_lt_or_eq]
  | ge =>
    change Operator.ofNumbers (numify x) (asNumber refs v) .ge = _ ↔ _
    rw [hnumber]
    refine order_iff fun p q => ?_
    simp [Operator.ofNumbers, Number.lt, Number.eq, le_iff_lt_or_eq, eq_comm]

end Comparisons

/-! ### The tree -/

section Tree

variable (refs : References) {row : Row} {key op : Text} {values : List Json} {f : Filters}

theorem lookup_of_mem : ∀ op ∈ comparisonOperators, (comparisonTable.lookup op).isSome := by
  decide

/-- The values of a comparison. -/
theorem anyValue_given {x : Text} (hop : op ∈ comparisonOperators) (hx : row key = some x)
    (hvalues : ∀ value ∈ values, isValue value = true) :
    ∃ verdicts, Given verdicts (valueMembers row key op values) ∧
      anyValue refs x op values = some (verdict false verdicts) := by
  have hcolumn : column row key = x := by rw [column, hx, Option.getD_some]
  obtain ⟨operator, hoperator⟩ := Option.isSome_iff_exists.mp (lookup_of_mem op hop)
  unfold valueMembers
  rw [hcolumn]
  induction values with
  | nil => exact ⟨[], .nil, rfl⟩
  | cons value values ih =>
    obtain ⟨hvalue, hrest⟩ := List.forall_mem_cons.mp hvalues
    obtain ⟨verdicts, hgiven, hrun⟩ := ih hrest
    refine ⟨operator.apply refs x value :: verdicts, .cons ?_ hgiven, ?_⟩
    · have hjudged : JudgedValue x op value ↔ Judged x (valueText value) operator := by
        unfold JudgedValue
        rw [hoperator]
        exact ⟨fun h => h operator rfl, fun h _ hsame => Option.some.inj hsame ▸ h⟩
      change operator.apply refs x value = selectsValue x op value ↔ ¬¬JudgedValue x op value
      rw [not_not, hjudged, ← apply_eq_iff hvalue, selectsValue, hoperator, Option.any_some]
    · unfold anyValue evaluateExpression
      rw [hoperator, hrun, verdict_cons]
      change (if operator.apply refs x value then some true else some (verdict false verdicts)) = _
      cases operator.apply refs x value <;> rfl

theorem members_selected (row : Row) (f : Filters) :
    (members row f).map (·.1) = selected row f := by
  induction f with
  | nil => rfl
  | leaf key op values rest ih => exact congrArg _ ih
  | group key items rest _ ih => exact congrArg _ ih

theorem groups_of_mem {key : Text} (h : key ∈ logicalOperators) :
    key = "-and".toList ∨ key = "-or".toList ∨ key = "-not".toList := by
  simpa [logicalOperators] using h

/-- The verdicts that the loops give on the members of a level. -/
theorem satisfyItems_given (hf : Normalised f)
    (hdefined : ∀ key ∈ FilterPaths.leafKeys f, (row key).isSome) :
    ∃ verdicts, Given verdicts (members row f) ∧
      ∀ all, satisfyItems refs row all f = some (verdict all verdicts) := by
  induction f with
  | nil => exact ⟨[], .nil, fun all => by rw [verdict_nil]; rfl⟩
  | leaf key op values rest ih =>
    obtain ⟨hkey, hop, hvalues, hrest⟩ := hf
    obtain ⟨hcolumn, hcolumns⟩ := List.forall_mem_cons.mp hdefined
    obtain ⟨x, hx⟩ := Option.isSome_iff_exists.mp hcolumn
    obtain ⟨verdicts, hgiven, hrun⟩ := ih hrest hcolumns
    obtain ⟨inner, hinner, hany⟩ := anyValue_given refs hop hx hvalues
    refine ⟨verdict false inner :: verdicts, .cons ?_ hgiven, fun all => ?_⟩
    · change verdict false inner = selectsAny row key op values ↔
        ¬Misjudged false (valueMembers row key op values)
      rw [← verdict_eq_iff hinner, selectsAny, valueMembers, List.map_map]
      rfl
    · unfold satisfyItems
      rw [if_neg hkey, hx, verdict_cons]
      change ((anyValue refs x op values).bind fun b =>
        if b = all then satisfyItems refs row all rest else some !all) = _
      rw [hany]
      change (if verdict false inner = all then satisfyItems refs row all rest
        else some !all) = _
      rw [hrun, apply_ite some]
  | group key items rest ihitems ih =>
    obtain ⟨hkey, hitems, hrest⟩ := hf
    obtain ⟨hinside, hcolumns⟩ := List.forall_mem_append.mp hdefined
    obtain ⟨verdicts, hgiven, hrun⟩ := ih hrest hcolumns
    obtain ⟨inner, hinner, hlevel⟩ := ihitems hitems hinside
    refine ⟨groupVerdict key inner :: verdicts, .cons ?_ hgiven, fun all => ?_⟩
    · change groupVerdict key inner = groupVerdict key (selected row items) ↔
        ¬Misjudged (key = "-and".toList) (members row items)
      rw [← verdict_eq_iff hinner, members_selected]
      obtain rfl | rfl | rfl := groups_of_mem hkey
      · rfl
      · rfl
      · exact Bool.not_inj_iff
    · have hgroup : (if key = "-and".toList then satisfyItems refs row true items
          else if key = "-or".toList then satisfyItems refs row false items
          else if key = "-not".toList then (satisfyItems refs row false items).map (!·)
          else if (row key).isSome then none else some false) =
            some (groupVerdict key inner) := by
        rw [hlevel, hlevel]
        obtain rfl | rfl | rfl := groups_of_mem hkey <;> rfl
      unfold satisfyItems
      rw [hgroup, verdict_cons]
      change (if groupVerdict key inner = all then satisfyItems refs row all rest
        else some !all) = _
      rw [hrun, apply_ite some]

/-- The rows are those that the loops find satisfied. -/
theorem cgrep_eq {items : Filters} {rows : List Row} {passes : Row → Bool}
    (h : ∀ row ∈ rows, satisfyItems refs row true items = some (passes row)) :
    cgrep refs items rows = some (rows.filter passes) := by
  induction rows with
  | nil => rfl
  | cons row rows ih =>
    obtain ⟨hrow, hrows⟩ := List.forall_mem_cons.mp h
    rw [cgrep, hrow, ih hrows, List.filter_cons]
    rfl

theorem filter_eq_iff {α : Type} {l : List α} {p q : α → Bool} :
    l.filter p = l.filter q ↔ ∀ a ∈ l, p a = q a := by
  refine ⟨fun h a ha => ?_, fun h => List.filter_congr h⟩
  have hmem : a ∈ l.filter p ↔ a ∈ l.filter q := by rw [h]
  rw [List.mem_filter, List.mem_filter] at hmem
  exact Bool.eq_iff_iff.mpr (by simpa [ha] using hmem)

/-- A row passes as the database selects it, unless misjudged comparisons decide. -/
theorem satisfyItems_judged (refs : References) (search : Search) (hrow : row ∈ search.rows) :
    ∃ b, satisfyItems refs row true search.items = some b ∧
      (b = verdict true (selected row search.items) ↔
        ¬Misjudged true (members row search.items)) := by
  obtain ⟨verdicts, hgiven, hrun⟩ :=
    satisfyItems_given refs search.normalised (search.defined row hrow)
  refine ⟨verdict true verdicts, hrun true, ?_⟩
  rw [← members_selected]
  exact verdict_eq_iff hgiven

/-- Each comparison of the tree is judged as in the database. -/
def AllJudged (row : Row) : Filters → Prop
  | .nil => True
  | .leaf key op values rest =>
    (∀ value ∈ values, JudgedValue (column row key) op value) ∧ AllJudged row rest
  | .group _ items rest => AllJudged row items ∧ AllJudged row rest

/-- Without a comparison that is misjudged nothing is decided by one. -/
theorem not_misjudged_of_allJudged (h : AllJudged row f) : ∀ m ∈ members row f, ¬m.2 := by
  induction f with
  | nil => exact fun _ h => absurd h List.not_mem_nil
  | leaf key op values rest ih =>
    refine List.forall_mem_cons.mpr ⟨not_misjudged_of_forall ?_, ih h.2⟩
    exact List.forall_mem_map.mpr fun value hvalue => not_not.mpr (h.1 value hvalue)
  | group key items rest ihitems ih =>
    exact List.forall_mem_cons.mpr ⟨not_misjudged_of_forall (ihitems h.1), ih h.2⟩

theorem cgrep_of_allJudged (refs : References) (search : Search)
    (h : ∀ row ∈ search.rows, AllJudged row search.items) :
    cgrep refs search.items search.rows = some (select search.items search.rows) := by
  refine cgrep_eq refs fun row hrow => ?_
  obtain ⟨b, hb, hiff⟩ := satisfyItems_judged refs search hrow
  rw [hb, hiff.mpr (not_misjudged_of_forall (not_misjudged_of_allJudged (h row hrow)))]

def noReferences : References := ⟨fun _ => [], fun _ => .nan⟩

/-- `{"name": {"<>": "b"}}` on a row with the name `a`. -/
def otherName : Search where
  items := .leaf "name".toList "<>".toList [.scalar ['b']] .nil
  rows := [fun _ => some ['a']]
  normalised := ⟨by decide, by decide, by decide, trivial⟩
  defined := fun row hrow key _ => by
    obtain rfl := List.mem_singleton.mp hrow
    rfl

end Tree

end Qvd.FilterGrep
