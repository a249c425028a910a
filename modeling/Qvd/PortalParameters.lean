import Mathlib.Data.List.Dedup
import Qvd.KeyedRows
import Qvd.PerlNumbers
import Qvd.RestFilter

/-!
The checks of the portal's requests: `find_invalid_parameter` with the types of `check_type`,
against the syntax they stand for.
-/
namespace Qvd.PortalParameters

open LineText PerlNumbers KeyedRows RestFilter

/-! ### The types -/

section Types

inductive TypeName
  | flag | bool | integer | double | string | arrayOfString | language | setting
  | allParameters | someParameters
  | other (name : Text)

def TypeName.text : TypeName → Text
  | .flag => "FLAG".toList
  | .bool => "BOOL".toList
  | .integer => "INTEGER".toList
  | .double => "DOUBLE".toList
  | .string => "STRING".toList
  | .arrayOfString => "ARRAY_OF_STRING".toList
  | .language => "LANGUAGE".toList
  | .setting => "SETTING".toList
  | .allParameters => "ALL_PARAMETERS".toList
  | .someParameters => "SOME_PARAMETERS".toList
  | .other name => name

/-- `language_enum`. -/
def languages : List Text := ["es", "en", "auto", "default"].map String.toList

/-- `user_portal_parameters_enum`. -/
def portalParameters : List Text :=
  ["connection", "audio", "printers", "fullscreen", "share_folders", "share_usb", "client",
    "kb_layout"].map String.toList

/-- `\d` for decoded texts. -/
structure DigitClass where
  isDigit : Char → Bool
  isDigit_newline : isDigit '\n' = false

variable (cls : DigitClass)

/-- `$` also matches before a line feed at the end. -/
def chomped (t : Text) : Text := if t.getLast? = some '\n' then t.dropLast else t

/-- `/^.*$/`. -/
def isLine (t : Text) : Bool := !(chomped t).contains '\n'

def isDigits (t : Text) : Bool := !t.isEmpty && t.all cls.isDigit

def unsigned : Text → Text
  | '-' :: t => t
  | t => t

/-- Digits, and others behind a character that is allowed as a point. -/
def isFraction (point : Char → Bool) (t : Text) : Bool :=
  isDigits cls t || (List.range t.length).any fun i =>
    isDigits cls (t.take i) && t[i]?.any point && isDigits cls (t.drop (i + 1))

/-- `/^\-?\d+(.\d+)?$/`, where the point stands for any character. -/
def isDouble (t : Text) : Bool := isFraction cls (· != '\n') (unsigned (chomped t))

def defined : Json → Bool
  | .null => false
  | _ => true

/-- `$hash->{$key}`. -/
def get (entries : List (Text × Json)) (key : Text) : Json := (entries.lookup key).getD .null

/-- `$value == n`, for a small number: no address is one. -/
def isNumber (n : ℕ) : Json → Bool
  | .scalar t => (numify t).eq (.finite n)
  | .bool b => b.toNat = n
  | _ => false

def checkString : Json → Bool
  | .null => false
  | .scalar t => isLine t
  | _ => true

/-- `grep(0, ...)` takes none. -/
def checkArrayOfString : Json → Bool
  | .array items => items.isEmpty || ((items.map checkString).filter fun _ => false).isEmpty
  | _ => false

def checkSetting : Json → Bool
  | .hash entries => defined (get entries "value".toList) &&
      checkArrayOfString (if defined (get entries "list".toList) then get entries "list".toList
        else .array [])
  | _ => false

/-- A string or a list as a hash is a death. -/
def checkAllParameters : Json → Option Bool
  | .hash entries => some (portalParameters.all fun param =>
      defined (get entries param) && checkSetting (get entries param))
  | _ => none

/-- What Perl takes for true. -/
def isTrueName (name : Text) : Bool := name != [] && name != ['0']

/-- `grep($param, @enum)` looks at the name only. -/
def checkSomeParameters : Json → Option Bool
  | .hash entries => some (!entries.isEmpty && entries.all fun entry =>
      !(portalParameters.filter fun _ => isTrueName entry.1).isEmpty &&
        checkSetting (get entries entry.1))
  | _ => none

/-- `check_type`; `none` is a death. -/
def checkType (value : Json) (type : TypeName) : Option Bool :=
  if !defined value then some false else
  match type with
  | .flag => some (isNumber 1 value)
  | .bool => some (isNumber 1 value || isNumber 0 value)
  | .integer => some (match value with
      | .scalar t => isDigits cls (chomped t)
      | .bool _ => true
      | _ => false)
  | .double => some (match value with
      | .scalar t => isDouble cls t
      | .bool _ => true
      | _ => false)
  | .string => some (checkString value)
  | .arrayOfString => some (checkArrayOfString value)
  | .language => some (match value with
      | .scalar t => languages.contains t
      | _ => false)
  | .setting => some (checkSetting value)
  | .allParameters => checkAllParameters value
  | .someParameters => checkSomeParameters value
  | .other _ => some true

end Types

/-! ### The parameters of a request -/

section Request

structure Entry where
  mandatory : Option Bool
  type : Option TypeName

abbrev Syntax := List (Text × Entry)

structure Finding where
  message : Text
  parameters : List (Text × Text)

variable (cls : DigitClass) (params : List (Text × Json)) (syn : Syntax)

def mandatory (param : Text) : Bool := ((syn.lookup param).bind (·.mandatory)).getD true

def typeOf (param : Text) : TypeName := ((syn.lookup param).bind (·.type)).getD .string

/-- `%union`. -/
def union : List Text := (params.map (·.1) ++ syn.map (·.1)).dedup

/-- The loop over the names; `none` is a death, and `some none` undef. -/
def firstInvalid : List Text → Option (Option Finding)
  | [] => some none
  | param :: rest =>
    if !defined (get params param) && mandatory syn param then
      some (some ⟨"Parameter __name__ is compulsory".toList, [("name".toList, param)]⟩)
    else if defined (get params param) then
      match checkType cls (get params param) (typeOf syn param) with
      | none => none
      | some false => some (some ⟨"Parameter __name__ shall be of type __type__".toList,
          [("name".toList, param), ("type".toList, (typeOf syn param).text)]⟩)
      | some true => firstInvalid rest
    else firstInvalid rest

/-- `find_invalid_parameter`. -/
def findInvalidParameter (order : HashOrder) : Option (Option Finding) :=
  firstInvalid cls params syn (order.keys (union params syn))

end Request

/-! ### The syntax -/

section Meaning

variable (cls : DigitClass)

def IsString (value : Json) : Prop := ∃ t, value = .scalar t

/-- `-?\d+(\.\d+)?` and nothing else. -/
def isDecimal (t : Text) : Bool := isFraction cls (· == '.') (unsigned t)

def IsStrings (value : Json) : Prop := ∃ items, value = .array items ∧ ∀ item ∈ items, IsString item

/-- A defined value, and a list of strings if there is one. -/
def IsSetting (value : Json) : Prop :=
  ∃ entries, value = .hash entries ∧ defined (get entries "value".toList) = true ∧
    (get entries "list".toList = .null ∨ IsStrings (get entries "list".toList))

/-- Settings of the enumeration only. -/
def AreSettings (entries : List (Text × Json)) : Prop :=
  ∀ param ∈ entries.map (·.1), param ∈ portalParameters ∧ IsSetting (get entries param)

/-- The values of a type. -/
def WellTyped (value : Json) : TypeName → Prop
  | .flag => value = .scalar ['1'] ∨ value = .bool true
  | .bool => value = .scalar ['0'] ∨ value = .scalar ['1'] ∨ ∃ b, value = .bool b
  | .integer => ∃ t, value = .scalar t ∧ isDigits cls t = true
  | .double => ∃ t, value = .scalar t ∧ isDecimal cls t = true
  | .string => IsString value
  | .arrayOfString => IsStrings value
  | .language => ∃ t ∈ languages, value = .scalar t
  | .setting => IsSetting value
  | .allParameters => ∃ entries, value = .hash entries ∧
      (∀ param ∈ portalParameters, param ∈ entries.map (·.1)) ∧ AreSettings entries
  | .someParameters => ∃ entries, value = .hash entries ∧ AreSettings entries
  | .other _ => True

variable (params : List (Text × Json)) (syn : Syntax)

/-- A parameter is declared, defined if it has to be, and of its type if it is defined. -/
def Allowed (param : Text) : Prop :=
  (syn.lookup param).isSome ∧
    (defined (get params param) = false → mandatory syn param = false) ∧
      (defined (get params param) = true → WellTyped cls (get params param) (typeOf syn param))

/-- A request that follows the syntax. -/
def Follows : Prop := ∀ param ∈ union params syn, Allowed cls params syn param

end Meaning

/-! ### Where the checks differ from it -/

section Differences

variable (cls : DigitClass)

/-- As a setting, but the list may hold anything. -/
def LooseSetting (value : Json) : Prop :=
  ∃ entries, value = .hash entries ∧ defined (get entries "value".toList) = true ∧
    (get entries "list".toList = .null ∨ ∃ items, get entries "list".toList = .array items)

/-- Some name is not of the enumeration, or some list is not one of strings. -/
def SomeAmiss (entries : List (Text × Json)) : Prop :=
  ∃ param ∈ entries.map (·.1), param ∉ portalParameters ∨ ¬IsSetting (get entries param)

/-- The values that pass for a type and are not of it. -/
def Lax (value : Json) : TypeName → Prop
  | .flag => ∃ t, value = .scalar t ∧ t ≠ ['1'] ∧ (numify t).eq (.finite 1) = true
  | .bool => ∃ t, value = .scalar t ∧ t ≠ ['0'] ∧ t ≠ ['1'] ∧
      ((numify t).eq (.finite 1) = true ∨ (numify t).eq (.finite 0) = true)
  | .integer => (∃ b, value = .bool b) ∨
      ∃ t, value = .scalar (t ++ ['\n']) ∧ isDigits cls t = true
  | .double => (∃ b, value = .bool b) ∨
      ∃ t, value = .scalar t ∧ isDouble cls t = true ∧ isDecimal cls t = false
  | .string => (∃ b, value = .bool b) ∨ (∃ items, value = .array items) ∨
      ∃ entries, value = .hash entries
  | .arrayOfString => ∃ items, value = .array items ∧ ∃ item ∈ items, ¬IsString item
  | .setting => LooseSetting value ∧ ¬IsSetting value
  | .allParameters => ∃ entries, value = .hash entries ∧
      (∀ param ∈ portalParameters, LooseSetting (get entries param)) ∧ SomeAmiss entries
  | .someParameters => ∃ entries, value = .hash entries ∧ entries ≠ [] ∧
      (∀ param ∈ entries.map (·.1), isTrueName param = true ∧ LooseSetting (get entries param)) ∧
        SomeAmiss entries
  | .language => False
  | .other _ => False

/-- The values of a type that do not pass for it: a string with a line break inside, and no
settings at all. -/
def Severe (value : Json) : TypeName → Prop
  | .string => ∃ t, value = .scalar t ∧ '\n' ∈ chomped t
  | .someParameters => value = .hash []
  | _ => False

variable (params : List (Text × Json)) (syn : Syntax)

/-- A parameter that passes and is not allowed: one that is not declared, with a value that passes
for a string, or one with a lax value. -/
def LaxParam (param : Text) : Prop :=
  (syn.lookup param = none ∧
    ((∃ t, get params param = .scalar t ∧ '\n' ∉ chomped t) ∨
      Lax cls (get params param) .string)) ∨
  (syn.lookup param).isSome ∧ Lax cls (get params param) (typeOf syn param)

/-- A parameter that is allowed and does not pass. -/
def SevereParam (param : Text) : Prop :=
  (syn.lookup param).isSome ∧ Severe (get params param) (typeOf syn param)

/-- No parameter is treated otherwise than the syntax says, or it does not matter: another one is
wrong anyway, or errors of both kinds meet. -/
def Exact : Prop :=
  (∀ param ∈ union params syn, ¬LaxParam cls params syn param ∧ ¬SevereParam params syn param) ∨
  (∃ param ∈ union params syn, ¬Allowed cls params syn param ∧ ¬LaxParam cls params syn param) ∨
  (∃ param ∈ union params syn, LaxParam cls params syn param) ∧
    ∃ param ∈ union params syn, SevereParam params syn param

end Differences

/-! ### The checks of the types -/

section Checks

variable {cls : DigitClass} {value : Json} {entries : List (Text × Json)} {t : Text}

theorem defined_iff : defined value = true ↔ value ≠ .null := by
  cases value with
  | null => simp [defined]
  | _ => simp [defined]

theorem checkArrayOfString_iff :
    checkArrayOfString value = true ↔ ∃ items, value = .array items := by
  cases value with
  | array items =>
    refine iff_of_true ?_ ⟨items, rfl⟩
    change (items.isEmpty || ((items.map checkString).filter fun _ => false).isEmpty) = true
    rw [List.filter_eq_nil_iff.mpr fun _ _ => Bool.false_ne_true]
    exact Bool.or_true _
  | _ => simp [checkArrayOfString]

theorem checkSetting_iff : checkSetting value = true ↔ LooseSetting value := by
  cases value with
  | hash entries =>
    unfold checkSetting LooseSetting
    rw [Bool.and_eq_true, checkArrayOfString_iff]
    simp only [Json.hash.injEq, exists_eq_left']
    refine and_congr_right fun _ => ?_
    by_cases hlist : get entries "list".toList = .null
    · rw [hlist]
      exact iff_of_true ⟨[], rfl⟩ (.inl rfl)
    · rw [if_pos (defined_iff.mpr hlist), or_iff_right hlist]
  | _ => simp [checkSetting, LooseSetting]

theorem IsSetting.loose (h : IsSetting value) : LooseSetting value := by
  obtain ⟨entries, hvalue, hdefined, hlist⟩ := h
  refine ⟨entries, hvalue, hdefined, hlist.imp_right ?_⟩
  rintro ⟨items, hitems, -⟩
  exact ⟨items, hitems⟩

theorem LooseSetting.defined (h : LooseSetting value) : defined value = true := by
  obtain ⟨entries, rfl, -⟩ := h
  rfl

theorem isTrueName_of_mem : ∀ name ∈ portalParameters, isTrueName name = true := by decide

theorem grep_name (name : Text) :
    (!(portalParameters.filter fun _ => isTrueName name).isEmpty) = isTrueName name := by
  cases isTrueName name <;> rfl

theorem checkAllParameters_iff : checkAllParameters value = some true ↔
    ∃ entries, value = .hash entries ∧
      ∀ param ∈ portalParameters, LooseSetting (get entries param) := by
  cases value with
  | hash entries =>
    unfold checkAllParameters
    simp only [Option.some.injEq, Json.hash.injEq, exists_eq_left', List.all_eq_true,
      Bool.and_eq_true, checkSetting_iff]
    exact forall₂_congr fun param _ => and_iff_right_of_imp LooseSetting.defined
  | _ => simp [checkAllParameters]

theorem checkSomeParameters_iff : checkSomeParameters value = some true ↔
    ∃ entries, value = .hash entries ∧ entries ≠ [] ∧
      ∀ param ∈ entries.map (·.1), isTrueName param = true ∧ LooseSetting (get entries param) := by
  cases value with
  | hash entries =>
    unfold checkSomeParameters
    simp only [Option.some.injEq, Json.hash.injEq, exists_eq_left', Bool.and_eq_true,
      List.all_eq_true, grep_name, checkSetting_iff, List.forall_mem_map]
    refine and_congr_left fun _ => ?_
    cases entries <;> simp
  | _ => simp [checkSomeParameters]

theorem not_amiss_iff : ¬SomeAmiss entries ↔ AreSettings entries := by
  unfold SomeAmiss AreSettings
  simp only [not_exists, not_and, not_or, not_not]

theorem AreSettings.loose (h : AreSettings entries) :
    ∀ param ∈ entries.map (·.1), isTrueName param = true ∧ LooseSetting (get entries param) :=
  fun param hmem => ⟨isTrueName_of_mem param (h param hmem).1, (h param hmem).2.loose⟩

theorem mem_keys_of_defined {key : Text} (h : defined (get entries key) = true) :
    key ∈ entries.map (·.1) := by
  unfold get at h
  cases hlookup : entries.lookup key with
  | none =>
    rw [hlookup] at h
    cases h
  | some value =>
    obtain ⟨front, back, rfl, -⟩ := List.lookup_eq_some_iff.mp hlookup
    simp

theorem chomped_append_newline (t : Text) : chomped (t ++ ['\n']) = t := by
  simp [chomped]

theorem chomped_of_not_mem (h : '\n' ∉ t) : chomped t = t := by
  unfold chomped
  refine if_neg fun hlast => h ?_
  exact List.mem_of_getLast? hlast

theorem chomped_cases (t : Text) : chomped t = t ∨ t = chomped t ++ ['\n'] := by
  unfold chomped
  split
  · rename_i hlast
    obtain ⟨front, rfl⟩ := List.getLast?_eq_some_iff.mp hlast
    rw [List.dropLast_concat]
    exact .inr rfl
  · exact .inl rfl

theorem newline_not_mem (h : isDigits cls t = true) : '\n' ∉ t := by
  intro hmem
  have hdigit := List.all_eq_true.mp ((Bool.and_eq_true _ _).mp h).2 _ hmem
  rw [cls.isDigit_newline] at hdigit
  cases hdigit

theorem isFraction_newline {point : Char → Bool} (hpoint : point '\n' = false)
    (h : isFraction cls point t = true) : '\n' ∉ t := by
  unfold isFraction at h
  rcases (Bool.or_eq_true _ _).mp h with hdigits | hany
  · exact newline_not_mem hdigits
  · obtain ⟨i, hi, hall⟩ := List.any_eq_true.mp hany
    simp only [Bool.and_eq_true] at hall
    obtain ⟨⟨hfront, hmiddle⟩, hback⟩ := hall
    have hlt := List.mem_range.mp hi
    intro hmem
    rw [← List.take_append_drop i t, List.drop_eq_getElem_cons hlt, List.mem_append,
      List.mem_cons] at hmem
    rcases hmem with hmem | hmem | hmem
    · exact newline_not_mem hfront hmem
    · rw [List.getElem?_eq_getElem hlt, ← hmem, Option.any_some, hpoint] at hmiddle
      cases hmiddle
    · exact newline_not_mem hback hmem

theorem isFraction_mono {p q : Char → Bool} (hpq : ∀ c, p c = true → q c = true)
    (h : isFraction cls p t = true) : isFraction cls q t = true := by
  unfold isFraction at h ⊢
  rcases (Bool.or_eq_true _ _).mp h with hdigits | hany
  · exact (Bool.or_eq_true _ _).mpr (.inl hdigits)
  · refine (Bool.or_eq_true _ _).mpr (.inr ?_)
    obtain ⟨i, hi, hall⟩ := List.any_eq_true.mp hany
    refine List.any_eq_true.mpr ⟨i, hi, ?_⟩
    simp only [Bool.and_eq_true, Option.any_eq_true] at hall ⊢
    obtain ⟨⟨hfront, c, hc, hpoint⟩, hback⟩ := hall
    exact ⟨⟨hfront, c, hc, hpq c hpoint⟩, hback⟩

/-- What is a decimal passes for one. -/
theorem isDouble_of_isDecimal (h : isDecimal cls t = true) : isDouble cls t = true := by
  have hunsigned : '\n' ∉ unsigned t := isFraction_newline (by decide) h
  have hnot : '\n' ∉ t := by
    unfold unsigned at hunsigned
    split at hunsigned
    · exact fun hmem => hunsigned ((List.mem_cons.mp hmem).resolve_left (by decide))
    · exact hunsigned
  unfold isDouble
  rw [chomped_of_not_mem hnot]
  refine isFraction_mono (fun c hc => ?_) h
  rw [beq_iff_eq] at hc
  subst hc
  rfl

/-- Digits pass, and with a line feed behind them too. -/
theorem isDigits_chomped : isDigits cls (chomped t) = true ↔
    isDigits cls t = true ∨ ∃ front, t = front ++ ['\n'] ∧ isDigits cls front = true := by
  constructor
  · intro h
    rcases chomped_cases t with hsame | hcut
    · exact .inl (hsame ▸ h)
    · exact .inr ⟨chomped t, hcut, h⟩
  · rintro (h | ⟨front, rfl, h⟩)
    · rwa [chomped_of_not_mem (newline_not_mem h)]
    · rwa [chomped_append_newline]

theorem isLine_iff : isLine t = true ↔ '\n' ∉ chomped t := by
  unfold isLine
  rw [Bool.not_eq_true', ← Bool.not_eq_true, List.contains_iff_mem]

theorem not_lax_and_wellTyped (type : TypeName) (hlax : Lax cls value type) :
    ¬WellTyped cls value type := by
  intro hwell
  cases type with
  | flag =>
    obtain ⟨t, rfl, hne, -⟩ := hlax
    rcases hwell with h | h
    · exact hne (Json.scalar.inj h)
    · cases h
  | bool =>
    obtain ⟨t, rfl, hzero, hone, -⟩ := hlax
    rcases hwell with h | h | ⟨b, h⟩
    · exact hzero (Json.scalar.inj h)
    · exact hone (Json.scalar.inj h)
    · cases h
  | integer =>
    obtain ⟨t, ht, hdigits⟩ := hwell
    rcases hlax with ⟨b, rfl⟩ | ⟨front, rfl, -⟩
    · cases ht
    · rw [← Json.scalar.inj ht] at hdigits
      exact newline_not_mem hdigits (by simp)
  | double =>
    obtain ⟨t, rfl, hdecimal⟩ := hwell
    rcases hlax with ⟨b, hb⟩ | ⟨t', ht, -, hnot⟩
    · cases hb
    · rw [← Json.scalar.inj ht, hdecimal] at hnot
      cases hnot
  | string =>
    obtain ⟨t, rfl⟩ := hwell
    rcases hlax with ⟨b, h⟩ | ⟨items, h⟩ | ⟨entries, h⟩ <;> cases h
  | arrayOfString =>
    obtain ⟨items, rfl, hall⟩ := hwell
    obtain ⟨items', hsame, item, hitem, hnot⟩ := hlax
    rw [← Json.array.inj hsame] at hitem
    exact hnot (hall item hitem)
  | language => exact hlax
  | setting => exact hlax.2 hwell
  | allParameters =>
    obtain ⟨entries, rfl, -, hall⟩ := hwell
    obtain ⟨entries', hsame, -, hamiss⟩ := hlax
    obtain rfl := Json.hash.inj hsame
    exact not_amiss_iff.mpr hall hamiss
  | someParameters =>
    obtain ⟨entries, rfl, hall⟩ := hwell
    obtain ⟨entries', hsame, -, -, hamiss⟩ := hlax
    obtain rfl := Json.hash.inj hsame
    exact not_amiss_iff.mpr hall hamiss
  | other _ => exact hlax

theorem wellTyped_of_severe (type : TypeName) (h : Severe value type) :
    WellTyped cls value type := by
  cases type with
  | string =>
    obtain ⟨t, ht, -⟩ := h
    exact ⟨t, ht⟩
  | someParameters => exact ⟨[], h, fun param hmem => absurd hmem List.not_mem_nil⟩
  | _ => cases h

theorem defined_of_lax (type : TypeName) (h : Lax cls value type) : defined value = true := by
  cases type with
  | flag => obtain ⟨t, rfl, -⟩ := h; rfl
  | bool => obtain ⟨t, rfl, -⟩ := h; rfl
  | integer => rcases h with ⟨b, rfl⟩ | ⟨t, rfl, -⟩ <;> rfl
  | double => rcases h with ⟨b, rfl⟩ | ⟨t, rfl, -⟩ <;> rfl
  | string => rcases h with ⟨b, rfl⟩ | ⟨items, rfl⟩ | ⟨entries, rfl⟩ <;> rfl
  | arrayOfString => obtain ⟨items, rfl, -⟩ := h; rfl
  | language => cases h
  | setting => exact h.1.defined
  | allParameters => obtain ⟨entries, rfl, -⟩ := h; rfl
  | someParameters => obtain ⟨entries, rfl, -⟩ := h; rfl
  | other _ => cases h

theorem defined_of_severe (type : TypeName) (h : Severe value type) : defined value = true := by
  cases type with
  | string => obtain ⟨t, rfl, -⟩ := h; rfl
  | someParameters => obtain rfl := h; rfl
  | _ => cases h

theorem numify_digits : (numify ['1']).eq (.finite 1) = true ∧
    (numify ['0']).eq (.finite 0) = true := by decide +kernel

theorem check_flag : isNumber 1 value = true ↔
    WellTyped cls value .flag ∨ Lax cls value .flag := by
  unfold isNumber WellTyped Lax
  cases value with
  | scalar t =>
    simp only [Json.scalar.injEq, reduceCtorEq, or_false, exists_eq_left', Nat.cast_one]
    by_cases ht : t = ['1']
    · subst ht
      exact iff_of_true numify_digits.1 (.inl rfl)
    · simp [ht]
  | bool b => cases b <;> simp
  | _ => simp

theorem check_bool : (isNumber 1 value || isNumber 0 value) = true ↔
    WellTyped cls value .bool ∨ Lax cls value .bool := by
  unfold isNumber WellTyped Lax
  cases value with
  | scalar t =>
    simp only [Json.scalar.injEq, reduceCtorEq, exists_false, or_false, exists_eq_left',
      Nat.cast_one, Nat.cast_zero, Bool.or_eq_true]
    by_cases hzero : t = ['0']
    · subst hzero
      exact iff_of_true (.inr numify_digits.2) (.inl (.inl rfl))
    · by_cases hone : t = ['1']
      · subst hone
        exact iff_of_true (.inl numify_digits.1) (.inl (.inr rfl))
      · simp [hzero, hone]
  | bool b => cases b <;> simp
  | _ => simp

theorem checkType_iff (type : TypeName) (hdefined : defined value = true) :
    checkType cls value type = some true ↔
      WellTyped cls value type ∧ ¬Severe value type ∨ Lax cls value type := by
  unfold checkType
  rw [hdefined, Bool.not_true, if_neg Bool.false_ne_true]
  cases type with
  | flag =>
    rw [Option.some.injEq, check_flag]
    exact or_congr_left (and_iff_left fun h => h).symm
  | bool =>
    rw [Option.some.injEq, check_bool]
    exact or_congr_left (and_iff_left fun h => h).symm
  | integer =>
    rw [Option.some.injEq]
    refine Iff.trans ?_ (or_congr_left (and_iff_left fun h => h).symm)
    unfold WellTyped Lax
    cases value with
    | scalar t => simp [isDigits_chomped]
    | bool b => simp
    | _ => simp
  | double =>
    rw [Option.some.injEq]
    refine Iff.trans ?_ (or_congr_left (and_iff_left fun h => h).symm)
    unfold WellTyped Lax
    cases value with
    | scalar t =>
      simp only [Json.scalar.injEq, reduceCtorEq, exists_false, false_or, exists_eq_left']
      constructor
      · intro h
        cases hdecimal : isDecimal cls t with
        | false => exact .inr ⟨h, rfl⟩
        | true => exact .inl rfl
      · rintro (h | ⟨h, -⟩)
        · exact isDouble_of_isDecimal h
        · exact h
    | bool b => simp
    | _ => simp
  | string =>
    unfold WellTyped Severe Lax checkString IsString
    cases value with
    | scalar t => simp [isLine_iff]
    | null => cases hdefined
    | _ => simp
  | arrayOfString =>
    rw [Option.some.injEq, checkArrayOfString_iff]
    refine Iff.trans ?_ (or_congr_left (and_iff_left fun h => h).symm)
    unfold WellTyped Lax IsStrings
    rw [← exists_or]
    refine exists_congr fun items => ?_
    rw [← and_or_left]
    refine (and_iff_left ?_).symm
    by_cases hall : ∀ item ∈ items, IsString item
    · exact .inl hall
    · exact .inr (by simpa using hall)
  | language =>
    rw [Option.some.injEq]
    unfold WellTyped Lax
    cases value with
    | scalar t => simp [Severe]
    | _ => simp
  | setting =>
    rw [Option.some.injEq, checkSetting_iff]
    refine Iff.trans ?_ (or_congr_left (and_iff_left fun h => h).symm)
    unfold WellTyped Lax
    by_cases hsetting : IsSetting value
    · exact iff_of_true hsetting.loose (.inl hsetting)
    · simp [hsetting]
  | allParameters =>
    change checkAllParameters value = some true ↔ _
    rw [checkAllParameters_iff]
    refine Iff.trans ?_ (or_congr_left (and_iff_left fun h => h).symm)
    unfold WellTyped Lax
    rw [← exists_or]
    refine exists_congr fun entries => ?_
    rw [← and_or_left]
    refine and_congr_right fun _ => ?_
    constructor
    · intro h
      by_cases hamiss : SomeAmiss entries
      · exact .inr ⟨h, hamiss⟩
      · exact .inl ⟨fun param hmem => mem_keys_of_defined (h param hmem).defined,
          not_amiss_iff.mp hamiss⟩
    · rintro (⟨hkeys, hall⟩ | ⟨h, -⟩)
      · exact fun param hmem => (hall param (hkeys param hmem)).2.loose
      · exact h
  | someParameters =>
    change checkSomeParameters value = some true ↔ _
    rw [checkSomeParameters_iff]
    unfold WellTyped Severe Lax
    constructor
    · rintro ⟨entries, rfl, hne, h⟩
      by_cases hamiss : SomeAmiss entries
      · exact .inr ⟨entries, rfl, hne, h, hamiss⟩
      · exact .inl ⟨⟨entries, rfl, not_amiss_iff.mp hamiss⟩, fun hnil => hne (Json.hash.inj hnil)⟩
    · rintro (⟨⟨entries, rfl, hall⟩, hne⟩ | ⟨entries, rfl, hne, h, -⟩)
      · exact ⟨entries, rfl, fun hnil => hne (congrArg Json.hash hnil), hall.loose⟩
      · exact ⟨entries, rfl, hne, h⟩
  | other _ => simp [WellTyped, Severe, Lax]

end Checks

/-! ### The whole request -/

section Whole

variable {cls : DigitClass} {params : List (Text × Json)} {syn : Syntax} {param : Text}

/-- A parameter that the loop goes past. -/
def Passes (cls : DigitClass) (params : List (Text × Json)) (syn : Syntax) (param : Text) : Prop :=
  (defined (get params param) = false → mandatory syn param = false) ∧
    (defined (get params param) = true →
      checkType cls (get params param) (typeOf syn param) = some true)

theorem firstInvalid_iff (names : List Text) :
    firstInvalid cls params syn names = some none ↔ ∀ param ∈ names, Passes cls params syn param := by
  induction names with
  | nil => exact iff_of_true rfl fun _ h => absurd h List.not_mem_nil
  | cons param names ih =>
    rw [List.forall_mem_cons, ← ih, firstInvalid]
    unfold Passes
    split
    · rename_i hmissing
      obtain ⟨hundefined, hmandatory⟩ := (Bool.and_eq_true _ _).mp hmissing
      refine iff_of_false (fun h => nomatch Option.some.inj h) fun h => ?_
      have hoptional := h.1.1 (by simpa using hundefined)
      rw [hmandatory] at hoptional
      cases hoptional
    · rename_i hpresent
      split
      · rename_i hdefined
        simp only [hdefined, Bool.true_eq_false, false_implies, true_and, forall_true_left]
        split
        · rename_i hcheck
          exact iff_of_false (fun h => nomatch h) fun h => nomatch hcheck.symm.trans h.1
        · rename_i hcheck
          exact iff_of_false (fun h => nomatch Option.some.inj h) fun h =>
            nomatch Option.some.inj (hcheck.symm.trans h.1)
        · rename_i hcheck
          exact (and_iff_right hcheck).symm
      · rename_i hundefined
        refine Iff.symm (and_iff_right ?_)
        refine ⟨fun hfalse => ?_, fun htrue => absurd htrue hundefined⟩
        cases hmandatory : mandatory syn param with
        | false => rfl
        | true => exact absurd (by simp [hfalse, hmandatory]) hpresent

theorem passes_iff : Passes cls params syn param ↔
    Allowed cls params syn param ∧ ¬SevereParam params syn param ∨
      LaxParam cls params syn param := by
  unfold Passes Allowed SevereParam LaxParam
  cases hlookup : syn.lookup param with
  | none =>
    have hmandatory : mandatory syn param = true := by
      unfold mandatory
      rw [hlookup]
      rfl
    have htype : typeOf syn param = .string := by
      unfold typeOf
      rw [hlookup]
      rfl
    rw [hmandatory, htype]
    simp only [Option.isSome_none, Bool.false_eq_true, false_and, false_or, or_false, true_and,
      Bool.true_eq_false, imp_false, Bool.not_eq_false]
    constructor
    · rintro ⟨hdefined, hcheck⟩
      rcases (checkType_iff .string hdefined).mp (hcheck hdefined) with ⟨⟨t, ht⟩, hnot⟩ | hlax
      · exact .inl ⟨t, ht, fun hmem => hnot ⟨t, ht, hmem⟩⟩
      · exact .inr hlax
    · intro h
      have hdefined : defined (get params param) = true := by
        rcases h with ⟨t, ht, -⟩ | hlax
        · rw [ht]
          rfl
        · exact defined_of_lax .string hlax
      refine ⟨hdefined, fun _ => (checkType_iff .string hdefined).mpr (h.imp_left ?_)⟩
      rintro ⟨t, ht, hline⟩
      refine ⟨⟨t, ht⟩, ?_⟩
      rintro ⟨t', ht', hmem⟩
      rw [ht] at ht'
      exact hline (Json.scalar.inj ht' ▸ hmem)
  | some entry =>
    simp only [Option.isSome_some, true_and, reduceCtorEq, false_and, false_or]
    cases hdefined : defined (get params param) with
    | true =>
      simp only [Bool.true_eq_false, false_implies, true_and, forall_true_left]
      exact checkType_iff (typeOf syn param) hdefined
    | false =>
      have hsevere : ¬Severe (get params param) (typeOf syn param) := fun h => by
        rw [defined_of_severe _ h] at hdefined
        cases hdefined
      have hlax : ¬Lax cls (get params param) (typeOf syn param) := fun h => by
        rw [defined_of_lax _ h] at hdefined
        cases hdefined
      simp [hsevere, hlax]

theorem not_allowed_of_lax (h : LaxParam cls params syn param) :
    ¬Allowed cls params syn param := by
  rintro ⟨hdeclared, -, hwell⟩
  rcases h with ⟨hnone, -⟩ | ⟨-, hlax⟩
  · rw [hnone] at hdeclared
    cases hdeclared
  · exact not_lax_and_wellTyped _ hlax (hwell (defined_of_lax _ hlax))

theorem allowed_of_severe (h : SevereParam params syn param) : Allowed cls params syn param := by
  obtain ⟨hdeclared, hsevere⟩ := h
  have hdefined := defined_of_severe _ hsevere
  refine ⟨hdeclared, fun hfalse => ?_, fun _ => wellTyped_of_severe _ hsevere⟩
  rw [hdefined] at hfalse
  cases hfalse

/-- Two readings of a list that differ in what each of them allows alone: they agree on it where
nothing differs, where something is refused by both, or where each refuses something. -/
theorem forall_iff_forall {α : Type*} {names : List α} {passes allowed lax severe : α → Prop}
    (hpasses : ∀ a, passes a ↔ allowed a ∧ ¬severe a ∨ lax a) (hlax : ∀ a, lax a → ¬allowed a)
    (hsevere : ∀ a, severe a → allowed a) :
    ((∀ a ∈ names, passes a) ↔ ∀ a ∈ names, allowed a) ↔
      (∀ a ∈ names, ¬lax a ∧ ¬severe a) ∨ (∃ a ∈ names, ¬allowed a ∧ ¬lax a) ∨
        (∃ a ∈ names, lax a) ∧ ∃ a ∈ names, severe a := by
  have hrefused : ∀ a, severe a → ¬passes a := fun a ha hp =>
    ((hpasses a).mp hp).elim (fun h => h.2 ha) fun h => hlax a h (hsevere a ha)
  constructor
  · intro hagree
    by_cases hboth : ∃ a ∈ names, ¬allowed a ∧ ¬lax a
    · exact .inr (.inl hboth)
    · have hsome : ∀ a ∈ names, allowed a ∨ lax a := by
        intro a ha
        by_contra hneither
        exact hboth ⟨a, ha, not_or.mp hneither⟩
      by_cases hall : ∀ a ∈ names, allowed a
      · refine .inl fun a ha => ⟨fun h => hlax a h (hall a ha), fun h => ?_⟩
        exact hrefused a h (hagree.mpr hall a ha)
      · have hnot : ¬∀ a ∈ names, passes a := fun h => hall (hagree.mp h)
        simp only [not_forall] at hall hnot
        obtain ⟨a, ha, hna⟩ := hall
        obtain ⟨b, hb, hnb⟩ := hnot
        have hlaxa : lax a := (hsome a ha).resolve_left hna
        have hnlaxb : ¬lax b := fun h => hnb ((hpasses b).mpr (.inr h))
        have hallowedb : allowed b := (hsome b hb).resolve_right hnlaxb
        refine .inr (.inr ⟨⟨a, ha, hlaxa⟩, b, hb, ?_⟩)
        by_contra hnsevere
        exact hnb ((hpasses b).mpr (.inl ⟨hallowedb, hnsevere⟩))
  · rintro (hnone | ⟨a, ha, hna, hnlax⟩ | ⟨⟨a, ha, hlaxa⟩, b, hb, hsevereb⟩)
    · refine forall₂_congr fun a ha => (hpasses a).trans ?_
      obtain ⟨hnlax, hnsevere⟩ := hnone a ha
      exact (or_iff_left hnlax).trans (and_iff_left hnsevere)
    · refine iff_of_false (fun h => ?_) fun h => hna (h a ha)
      exact ((hpasses a).mp (h a ha)).elim (fun hp => hna hp.1) hnlax
    · exact iff_of_false (fun h => hrefused b hsevereb (h b hb)) fun h => hlax a hlaxa (h a ha)

/-- The checks find nothing exactly in the requests that follow the syntax, exactly where no
parameter is treated otherwise or where it does not matter. -/
theorem find_invalid_iff (cls : DigitClass) (params : List (Text × Json)) (syn : Syntax)
    (order : HashOrder) :
    (findInvalidParameter cls params syn order = some none ↔ Follows cls params syn) ↔
      Exact cls params syn := by
  have hloop : findInvalidParameter cls params syn order = some none ↔
      ∀ param ∈ union params syn, Passes cls params syn param := by
    unfold findInvalidParameter
    rw [firstInvalid_iff]
    exact forall_congr' fun param => imp_congr_left (order.perm _).mem_iff
  rw [hloop]
  exact forall_iff_forall (fun _ => passes_iff) (fun _ => not_allowed_of_lax)
    fun _ => allowed_of_severe

/-- The digits of ASCII. -/
def ascii : DigitClass := ⟨Char.isDigit, by decide⟩

/-- The settings of an update with a name outside the enumeration. -/
def strangeSetting : List (Text × Json) :=
  [("settings".toList, .hash [("foo".toList, .hash [("value".toList, .scalar ['1'])])])]

def updateSyntax : Syntax := [("settings".toList, ⟨some false, some .someParameters⟩)]

/-- A setting that is not of the enumeration is let through. -/
theorem strange_setting_passes :
    ¬(findInvalidParameter ascii strangeSetting updateSyntax (rotated 0) = some none ↔
      Follows ascii strangeSetting updateSyntax) := by
  intro h
  have hpasses :
      findInvalidParameter ascii strangeSetting updateSyntax (rotated 0) = some none := by
    unfold findInvalidParameter
    rw [firstInvalid_iff]
    intro param hmem
    obtain rfl : param = "settings".toList := by
      have hin := ((rotated 0).perm _).mem_iff.mp hmem
      simpa [union, strangeSetting, updateSyntax] using hin
    exact ⟨fun hfalse => absurd hfalse (by decide), fun _ => by decide⟩
  have hfollows := h.mp hpasses "settings".toList (by decide)
  obtain ⟨entries, hsame, hall⟩ := hfollows.2.2 rfl
  obtain rfl := Json.hash.inj hsame
  exact absurd (hall "foo".toList (by decide)).1 (by decide)

end Whole

end Qvd.PortalParameters
