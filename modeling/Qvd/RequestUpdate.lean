import Mathlib.Data.List.Dedup
import Mathlib.Logic.Function.Basic
import Qvd.FilterSanitation
import Qvd.PropertyTables

/-!
Updates of the administration API: what the arguments and nested queries of a request become in the
objects that it selects.
-/
namespace Qvd.RequestUpdate

open NumberedPath RestFilter RestModel RequestChecks RequestBuild Checks KeyedRows PropertyTables

/-! ### The action -/

section Action

/-- An object that is selected: its columns, those of the tables related to it under their table's
name, and its properties by the id of their assignment to the kind of object. -/
structure Object where
  id : ℕ
  tenantId : ℤ
  columns : Text → Json
  related : Text → Json
  properties : ℕ → Option Json

/-- The tables of the properties, and what the database takes. -/
structure Database where
  tables : Tables
  takesColumns : Object → List (Text × Json) → Bool
  takesRelated : Object → List (Text × Json) → Bool
  takesProperty : Object → ℕ → Json → Bool
  takesOther : Text → Json → Object → Bool

/-- `qvd_obj_to_table`. -/
def tableOf (qvdObject : String) : String :=
  if qvdObject = "My_Admin" then "Administrator"
  else if qvdObject = "My_Tenant" then "Tenant"
  else qvdObject

def propertiesMethod : Text := "custom_properties_set".toList

variable (db : Database) (model : Model) (order : HashOrder)

def kind : Text := (tableOf model.qvdObject).toList.map Char.toLower

/-- The tenant that a property is searched in: any for a superadmin. Hosts have none, and others
may not set their properties. -/
def tenantFilter (object : Object) : Option (Option ℤ) :=
  if model.administrator.isSuperadmin then some none
  else if tableOf model.qvdObject = "Host" then none
  else some (some object.tenantId)

/-- The assignments of a property to the kind of object. -/
def searchKey (key : Text) (tenantId : Option ℤ) : List ObjectProperty :=
  db.tables.assignments.filter fun row => row.qvdObject = kind model &&
    db.tables.properties.any fun property => property.id = row.propertyId &&
      property.key = key && tenantId.all fun tenantId => property.tenantId = tenantId

def entriesOf : Json → List (Text × Json)
  | .hash entries => entries
  | _ => []

def names (entries : List (Text × Json)) : List Text := (entries.map Prod.fst).dedup

def get (entries : List (Text × Json)) (key : Text) : Json := (entries.lookup key).getD .null

def setProperty (object : Object) (key : Text) (value : Json) : Option Object :=
  (tenantFilter model object).bind fun tenantId =>
    match searchKey db model key tenantId with
    | [row] =>
      if db.takesProperty object row.id value then
        some { object with properties := Function.update object.properties row.id (some value) }
      else none
    | _ => none

/-- `custom_properties_set`. An undefined value becomes a hash; anything else is a death. -/
def customPropertiesSet (props : Json) (object : Object) : Option Object :=
  match props with
  | .hash entries => (order.keys (names entries)).foldlM
      (fun object key => setProperty db model object key (get entries key)) object
  | .null => some object
  | _ => none

/-- The methods for tags, roles and ACLs leave the object itself alone. -/
def execNestedQuery (object : Object) (method : Text) (value : Json) : Option Object :=
  if method = propertiesMethod then customPropertiesSet db model order value object
  else if db.takesOther method value object then some object else none

variable (request : Request)

def execNestedQueries (object : Object) : Option Object :=
  (order.keys (names request.nestedQueries)).foldlM (fun object method =>
    execNestedQuery db model order object method (get request.nestedQueries method)) object

def updateColumns (object : Object) : Option Object :=
  if db.takesColumns object request.arguments then
    some { object with
      columns := fun column => (request.arguments.lookup column).getD (object.columns column) }
  else none

def updateRelatedObjects (object : Object) : Option Object :=
  if db.takesRelated object request.relatedObjectsArguments then
    some { object with
      related := fun column =>
        (request.relatedObjectsArguments.lookup column).getD (object.related column) }
  else none

/-- The transaction on an object. -/
def updateObject (object : Object) : Option Object :=
  (updateColumns db request object).bind fun object =>
    (updateRelatedObjects db request object).bind fun object =>
      execNestedQueries db model order request object

def updateObjects : List Object → Option (List Object)
  | [] => some []
  | object :: rest => (updateObject db model order request object).bind fun object =>
    (updateObjects rest).map fun rest => object :: rest

/-- `update`: there have to be objects, and one that fails makes the answer an error. -/
def update (objects : List Object) : Option (List Object) :=
  if objects.isEmpty then none else updateObjects db model order request objects

end Action

/-! ### The requests -/

section Requests

/-- An update that is accepted; in the hashes of a request every key is there once. -/
structure Update where
  model : Model
  wrapper : JsonWrapper
  request : Request
  type : model.typeOfAction = .update
  arguments_nodup : (wrapper.arguments.map Prod.fst).Nodup
  queries_nodup : (wrapper.nestedQueries.map Prod.fst).Nodup
  accepted : newRequest model wrapper = .ok request

variable (u : Update)

/-- The arguments that are columns. -/
def plainArguments : List (Text × Json) :=
  u.wrapper.arguments.filter fun argument => !u.model.hasProperty argument.1

/-- The arguments that are properties. -/
def propertyArguments : List (Text × Json) :=
  u.wrapper.arguments.filter fun argument => u.model.hasProperty argument.1

/-- The nested queries that set properties. -/
def propertyQueries : List (Text × Json) :=
  u.wrapper.nestedQueries.filter fun query =>
    u.model.mapNestedQueryToAdmin4 query.1 = some propertiesMethod

/-- The hashes of properties that are given, in the order in which they are put in the slot of the
method. -/
def settings : List (List (Text × Json)) :=
  (propertyArguments u).map (fun argument => [argument]) ++
    (propertyQueries u).map fun query => entriesOf query.2

/-- The hash that is left in the slot. -/
def slot : List (Text × Json) := (settings u).getLast?.getD []

end Requests

/-! ### What an update asks for -/

section Meaning

variable (db : Database) (u : Update)

/-- A column under its name with the table. -/
def Object.column (object : Object) (dbixKey : Text) : Json :=
  match "me.".toList.isPrefixOf? dbixKey with
  | some column => object.columns column
  | none => object.related dbixKey

/-- The value of an argument in the terms of the database: normalised, and null for an empty
text. -/
def givenValue (argument : Text × Json) : Json :=
  undefIfEmpty (u.model.normalizeValue argument.1 argument.2)

/-- The row is that of the property of this name for the object. -/
def PropertyOf (object : Object) (key : Text) (row : ObjectProperty) : Prop :=
  ∃ tenantId, tenantFilter u.model object = some tenantId ∧
    searchKey db u.model key tenantId = [row]

def HasProperty (object : Object) (key : Text) (value : Json) : Prop :=
  ∃ row, PropertyOf db u object key row ∧ object.properties row.id = some value

/-- All arguments are applied to an object, and nothing else. -/
structure Applied (before after : Object) : Prop where
  columns : ∀ argument ∈ plainArguments u, ∀ dbixKey,
    u.model.mapToDbixFormat argument.1 = some dbixKey →
      after.column dbixKey = givenValue u argument
  other_columns : ∀ dbixKey, (∀ argument ∈ plainArguments u,
    u.model.mapToDbixFormat argument.1 ≠ some dbixKey) →
      after.column dbixKey = before.column dbixKey
  properties : ∀ entries ∈ settings u, ∀ key ∈ names entries,
    HasProperty db u after key (get entries key)
  other_properties : ∀ id, (∀ entries ∈ settings u, ∀ key ∈ names entries, ∀ row,
    PropertyOf db u before key row → row.id ≠ id) → after.properties id = before.properties id

/-- A property that is given is in the hash that is left with the value given, or it is not in it
and the object has this value already. -/
def Kept (object : Object) : Prop :=
  ∀ entries ∈ settings u, ∀ key ∈ names entries,
    key ∈ names (slot u) ∧ get (slot u) key = get entries key ∨
      key ∉ names (slot u) ∧ HasProperty db u object key (get entries key)

end Meaning

/-! ### The request that is made -/

section Making

variable {model : Model} {wrapper : JsonWrapper} {request request' : Request}

/-- What the methods are called with is the same. -/
def SameCalls (request request' : Request) : Prop :=
  request'.arguments = request.arguments ∧
    request'.relatedObjectsArguments = request.relatedObjectsArguments ∧
      request'.nestedQueries = request.nestedQueries

theorem SameCalls.refl (request : Request) : SameCalls request request := ⟨rfl, rfl, rfl⟩

theorem SameCalls.trans {request'' : Request} (h : SameCalls request request')
    (h' : SameCalls request' request'') : SameCalls request request'' :=
  ⟨h'.1.trans h.1, h'.2.1.trans h.2.1, h'.2.2.trans h.2.2⟩

theorem addAtRoot_same {key : Text} {value : Json}
    (h : addAtRoot request key value = .ok request') : SameCalls request request' := by
  simp only [addAtRoot, bind_ok, pure_ok] at h
  obtain ⟨filters, -, heq⟩ := h
  exact heq ▸ ⟨rfl, rfl, rfl⟩

theorem setOrderByInRequest_same
    (h : setOrderByInRequest model wrapper request = .ok request') :
    SameCalls request request' := by
  simp only [setOrderByInRequest, bind_ok, pure_ok] at h
  obtain ⟨orderBy, -, heq⟩ := h
  exact heq ▸ ⟨rfl, rfl, rfl⟩

theorem checkUniqueRole_same (h : checkUniqueRole model request = .ok request') :
    SameCalls request request' :=
  FilterSanitation.checkUniqueRole_same h ▸ SameCalls.refl request

theorem checkUniqueAdmin_same (h : checkUniqueAdmin model request = .ok request') :
    SameCalls request request' := by
  unfold checkUniqueAdmin at h
  split at h
  · rw [bind_ok] at h
    obtain ⟨mid, hmid, hcheck⟩ := h
    rw [FilterSanitation.checkUnique_same hcheck]
    rw [setDefaultAdminId, bind_ok] at hmid
    obtain ⟨value, -, hmid⟩ := hmid
    cases value with
    | none => exact addAtRoot_same hmid
    | some values => exact pure_ok.mp hmid ▸ SameCalls.refl request
  · exact Except.ok.inj h ▸ SameCalls.refl request

theorem hideRecoveryModeAdministrator_same
    (h : hideRecoveryModeAdministrator model request = .ok request') :
    SameCalls request request' := by
  unfold hideRecoveryModeAdministrator at h
  split at h
  · exact addAtRoot_same h
  · exact Except.ok.inj h ▸ SameCalls.refl request

theorem forzeFilteringByTenant_same
    (h : forzeFilteringByTenant model request = .ok request') : SameCalls request request' := by
  unfold forzeFilteringByTenant at h
  split at h
  · exact Except.ok.inj h ▸ SameCalls.refl request
  · rw [bind_ok] at h
    obtain ⟨paths, -, h⟩ := h
    split at h
    · split at h
      · exact Except.ok.inj h ▸ SameCalls.refl request
      · cases h
    · split at h
      · exact Except.ok.inj h ▸ SameCalls.refl request
      · exact addAtRoot_same h

theorem forzeOwnAdminId_same (htype : model.typeOfAction = .update)
    (h : forzeOwnAdminId model request = .ok request') : SameCalls request request' := by
  unfold forzeOwnAdminId at h
  split at h
  · rw [if_neg (by rw [htype]; decide)] at h
    exact addAtRoot_same h
  · exact Except.ok.inj h ▸ SameCalls.refl request

theorem forzeFilteringTenantsByTenant_same
    (h : forzeFilteringTenantsByTenant model request = .ok request') :
    SameCalls request request' := by
  unfold forzeFilteringTenantsByTenant at h
  split at h
  · exact addAtRoot_same h
  · exact Except.ok.inj h ▸ SameCalls.refl request

theorem forzeTenantAssignment_same (htype : model.typeOfAction = .update)
    (h : forzeTenantAssignment model wrapper request = .ok request') :
    SameCalls request request' := by
  unfold forzeTenantAssignment at h
  rw [htype, show TypeOfAction.creates .update = false from rfl, Bool.false_and,
    if_neg Bool.false_ne_true] at h
  exact Except.ok.inj h ▸ SameCalls.refl request

/-- An update is made of the arguments and the nested queries, after the check of the arguments. -/
theorem made (u : Update) : checkUpdateArgumentsValidity u.model u.wrapper = .ok () ∧
    ∃ r₁ r₂, u.wrapper.arguments.foldlM (setArgument u.model)
        { filters := u.wrapper.filtersObj } = .ok r₁ ∧
      setNestedQueriesInRequest u.model u.wrapper r₁ = .ok r₂ ∧ SameCalls r₂ u.request := by
  have h := u.accepted
  simp only [newRequest, seq_ok] at h
  obtain ⟨hchecks, h⟩ := h
  simp only [bind_ok] at h
  obtain ⟨r₁, harguments, r₂, hnested, r₃, horder, r₄, hrole, r₅, hadmin, r₆, hrecovery, r₇,
    htenant, r₈, hviews, r₉, htenants, hassign⟩ := h
  have hcreates : u.model.typeOfAction.creates = false := by
    rw [u.type]
    rfl
  constructor
  · simp only [checkRequest, seq_ok] at hchecks
    exact checkWhen_ok.mp hchecks.2.2.1 (decide_eq_true u.type)
  · refine ⟨r₁, r₂, ?_, hnested, ?_⟩
    · rw [setArgumentsInRequest, bind_ok] at harguments
      obtain ⟨mid, hmid, hrest⟩ := harguments
      rw [hcreates, if_neg Bool.false_ne_true] at hrest
      rw [hmid, pure_ok.mp hrest]
    · exact (setOrderByInRequest_same horder).trans <| (checkUniqueRole_same hrole).trans <|
        (checkUniqueAdmin_same hadmin).trans <|
        (hideRecoveryModeAdministrator_same hrecovery).trans <|
        (forzeFilteringByTenant_same htenant).trans <|
        (forzeOwnAdminId_same u.type hviews).trans <|
        (forzeFilteringTenantsByTenant_same htenants).trans <|
        forzeTenantAssignment_same u.type hassign

end Making

/-! ### Its columns and its slot -/

section Slot

variable {model : Model} {request request' : Request} {argument : Text × Json} {dbixKey : Text}

theorem lookup_replaced (hash : List (Text × Json)) (key other : Text) (value : Json) :
    (hash.map fun entry => if entry.1 = key then (key, value) else entry).lookup other =
      if other = key ∧ (hash.lookup key).isSome then some value else hash.lookup other := by
  induction hash with
  | nil => simp
  | cons entry hash ih =>
    obtain ⟨first, old⟩ := entry
    rw [List.map_cons]
    by_cases hfirst : first = key
    · subst hfirst
      by_cases hother : other = first
      · subst hother
        simp
      · simp [List.lookup_cons, beq_eq_false_iff_ne.mpr hother, ih, hother]
    · rw [if_neg hfirst, List.lookup_cons, List.lookup_cons, List.lookup_cons, ih,
        beq_eq_false_iff_ne.mpr (Ne.symm hfirst)]
      by_cases hother : other = first
      · subst hother
        simp [hfirst]
      · simp [beq_eq_false_iff_ne.mpr hother]

theorem lookup_setEntry (hash : List (Text × Json)) (key other : Text) (value : Json) :
    (setEntry hash key value).lookup other =
      if other = key then some value else hash.lookup other := by
  unfold setEntry
  split_ifs with hthere hsame hsame
  · rw [lookup_replaced, if_pos ⟨hsame, hthere⟩]
  · rw [lookup_replaced, if_neg fun h => hsame h.1]
  · subst hsame
    rw [List.lookup_append, Option.not_isSome_iff_eq_none.mp hthere]
    simp
  · rw [List.lookup_append]
    simp [List.lookup_cons, beq_eq_false_iff_ne.mpr hsame]

/-- What a column is set to. -/
def setColumn (request : Request) (dbixKey : Text) : Option Json :=
  match "me.".toList.isPrefixOf? dbixKey with
  | some column => request.arguments.lookup column
  | none => request.relatedObjectsArguments.lookup dbixKey

theorem setColumn_instantiateArgument (request : Request) (dbixKey other : Text) (value : Json) :
    setColumn (instantiateArgument request dbixKey value) other =
      if other = dbixKey then some (undefIfEmpty value) else setColumn request other := by
  unfold setColumn instantiateArgument
  cases hkey : "me.".toList.isPrefixOf? dbixKey with
  | none =>
    cases hother : "me.".toList.isPrefixOf? other with
    | none => exact lookup_setEntry _ _ _ _
    | some column =>
      have hne : other ≠ dbixKey := by
        rintro rfl
        rw [hkey] at hother
        cases hother
      rw [if_neg hne]
  | some column =>
    have hcolumn := List.isPrefixOf?_eq_some_iff_append_eq.mp hkey
    cases hother : "me.".toList.isPrefixOf? other with
    | none =>
      have hne : other ≠ dbixKey := by
        rintro rfl
        rw [hkey] at hother
        cases hother
      rw [if_neg hne]
    | some column' =>
      have hcolumn' := List.isPrefixOf?_eq_some_iff_append_eq.mp hother
      refine (lookup_setEntry _ _ _ _).trans (if_congr ?_ rfl rfl)
      rw [← hcolumn, ← hcolumn', List.append_cancel_left_eq]

theorem mapped_ok {column : Option Text} {element method : Text} :
    mapped column element = .ok method ↔ column = some method := by
  cases column <;> simp [mapped]

theorem setArgument_plain (hplain : model.hasProperty argument.1 = false)
    (h : setArgument model request argument = .ok request') :
    ∃ dbixKey, model.mapToDbixFormat argument.1 = some dbixKey ∧
      request' = instantiateArgument request dbixKey
        (model.normalizeValue argument.1 argument.2) := by
  unfold setArgument at h
  rw [if_neg (by rw [hplain]; exact Bool.false_ne_true), bind_ok] at h
  obtain ⟨dbixKey, hmapped, heq⟩ := h
  exact ⟨dbixKey, mapped_ok.mp hmapped, (pure_ok.mp heq).symm⟩

theorem properties_mapped : ∀ entry ∈ RestTables.nestedQueriesToAdmin4, ∀ pair ∈ entry.2,
    pair.1 = "__properties__" → pair.2.toList = propertiesMethod := by
  decide

theorem map_properties {method : Text}
    (h : model.mapNestedQueryToAdmin4 "__properties__".toList = some method) :
    method = propertiesMethod := by
  obtain ⟨pair, hfind, rfl⟩ := Option.map_eq_some_iff.mp h
  cases hlookup : RestTables.nestedQueriesToAdmin4.lookup model.qvdObject with
  | none =>
    rw [hlookup] at hfind
    cases hfind
  | some pairs =>
    rw [hlookup] at hfind
    obtain ⟨front, back, hsplit, -⟩ := List.lookup_eq_some_iff.mp hlookup
    have hentry : (model.qvdObject, pairs) ∈ RestTables.nestedQueriesToAdmin4 := by
      simp [hsplit]
    refine properties_mapped _ hentry pair (List.mem_of_find?_eq_some hfind) ?_
    have hkey : decide (pair.1.toList = "__properties__".toList) = true :=
      List.find?_some (p := fun pair : String × String =>
        decide (pair.1.toList = "__properties__".toList)) hfind
    exact String.toList_inj.mp (of_decide_eq_true hkey)

/-- The column behind an argument of a kind of object. -/
def columnOf (qvdObject : String) (argument : Text) : Option String :=
  (((RestTables.filtersToDbixFormat.lookup qvdObject).getD []).find? fun pair =>
    pair.1.toList = argument).map (·.2)

/-- Different arguments of an object are different columns. -/
theorem columns_nodup : ∀ entry ∈ RestTables.availableArguments,
    ((words entry.2).map (columnOf entry.1)).Nodup := by
  decide +kernel

theorem argument_eq_of_mapped {a b dbixKey : Text} (ha : a ∈ model.availableArguments)
    (hb : b ∈ model.availableArguments) (hmapped : model.mapToDbixFormat a = some dbixKey)
    (hmapped' : model.mapToDbixFormat b = some dbixKey) : a = b := by
  cases hlookup : RestTables.availableArguments.lookup model.qvdObject with
  | none =>
    rw [Model.availableArguments, Model.infoByObject, hlookup] at ha
    cases ha
  | some arguments =>
    rw [Model.availableArguments, Model.infoByObject, hlookup] at ha hb
    obtain ⟨front, back, hsplit, -⟩ := List.lookup_eq_some_iff.mp hlookup
    have hentry : (model.qvdObject, arguments) ∈ RestTables.availableArguments := by
      simp [hsplit]
    obtain ⟨pair, hfind, hpair⟩ := Option.map_eq_some_iff.mp hmapped
    obtain ⟨pair', hfind', hpair'⟩ := Option.map_eq_some_iff.mp hmapped'
    refine List.inj_on_of_nodup_map (columns_nodup _ hentry) ha hb ?_
    unfold columnOf
    rw [hfind, hfind', Option.map_some, Option.map_some]
    exact congrArg some (String.toList_inj.mp (hpair.trans hpair'.symm))

theorem setArgument_property (hproperty : model.hasProperty argument.1 = true)
    (h : setArgument model request argument = .ok request') :
    request' = setNestedQuery request propertiesMethod (.hash [argument]) := by
  unfold setArgument at h
  rw [if_pos hproperty] at h
  simp only [bind_ok] at h
  obtain ⟨method, hmapped, heq⟩ := h
  rw [← map_properties (mapped_ok.mp hmapped)]
  exact (pure_ok.mp heq).symm

/-- A column that no argument is mapped to is not set. -/
theorem setArguments_other {arguments : List (Text × Json)}
    (h : arguments.foldlM (setArgument model) request = .ok request')
    (hother : ∀ argument ∈ arguments, model.hasProperty argument.1 = false →
      model.mapToDbixFormat argument.1 ≠ some dbixKey) :
    setColumn request' dbixKey = setColumn request dbixKey := by
  induction arguments generalizing request with
  | nil => rw [pure_ok.mp h]
  | cons argument arguments ih =>
    rw [List.foldlM_cons, bind_ok] at h
    obtain ⟨mid, hmid, hrest⟩ := h
    obtain ⟨hfirst, hothers⟩ := List.forall_mem_cons.mp hother
    rw [ih hrest hothers]
    cases hproperty : model.hasProperty argument.1 with
    | true =>
      rw [setArgument_property hproperty hmid]
      rfl
    | false =>
      obtain ⟨key, hmapped, rfl⟩ := setArgument_plain hproperty hmid
      rw [setColumn_instantiateArgument, if_neg]
      rintro rfl
      exact hfirst hproperty hmapped

/-- The column of an argument is set to its value. -/
theorem setArguments_column {arguments : List (Text × Json)}
    (h : arguments.foldlM (setArgument model) request = .ok request')
    (hkeys : ∀ a ∈ arguments, ∀ b ∈ arguments, model.hasProperty a.1 = false →
      model.hasProperty b.1 = false → model.mapToDbixFormat a.1 = some dbixKey →
      model.mapToDbixFormat b.1 = some dbixKey → a.1 = b.1)
    (hnodup : (arguments.map Prod.fst).Nodup) (hmem : argument ∈ arguments)
    (hplain : model.hasProperty argument.1 = false)
    (hmapped : model.mapToDbixFormat argument.1 = some dbixKey) :
    setColumn request' dbixKey =
      some (undefIfEmpty (model.normalizeValue argument.1 argument.2)) := by
  obtain ⟨front, back, rfl⟩ := List.append_of_mem hmem
  rw [List.foldlM_append, bind_ok] at h
  obtain ⟨mid, -, h⟩ := h
  rw [List.foldlM_cons, bind_ok] at h
  obtain ⟨mid', hargument, hback⟩ := h
  have hothers : ∀ other ∈ back, model.hasProperty other.1 = false →
      model.mapToDbixFormat other.1 ≠ some dbixKey := by
    intro other hother hplain' hmapped'
    have hsame := hkeys argument hmem other (by simp [hother]) hplain hplain' hmapped hmapped'
    rw [List.map_append, List.map_cons] at hnodup
    exact (List.nodup_cons.mp (List.nodup_append.mp hnodup).2.1).1
      (hsame ▸ List.mem_map_of_mem hother)
  rw [setArguments_other hback hothers]
  obtain ⟨key, hkey, rfl⟩ := setArgument_plain hplain hargument
  obtain rfl : key = dbixKey := Option.some.inj (hkey.symm.trans hmapped)
  rw [setColumn_instantiateArgument, if_pos rfl]

theorem getLast?_cons_or {α : Type} (a : α) (l : List α) (b : Option α) :
    (a :: l).getLast?.or b = l.getLast?.or (some a) := by
  rw [List.getLast?_cons]
  cases l.getLast? <;> rfl

/-- The last argument that is a property is left in the slot. -/
theorem setArguments_slot {arguments : List (Text × Json)}
    (h : arguments.foldlM (setArgument model) request = .ok request') :
    request'.nestedQueries.lookup propertiesMethod =
      (((arguments.filter fun argument => model.hasProperty argument.1).map fun argument =>
        Json.hash [argument]).getLast?).or (request.nestedQueries.lookup propertiesMethod) := by
  induction arguments generalizing request with
  | nil => rw [pure_ok.mp h]; rfl
  | cons argument arguments ih =>
    rw [List.foldlM_cons, bind_ok] at h
    obtain ⟨mid, hmid, hrest⟩ := h
    rw [ih hrest]
    cases hproperty : model.hasProperty argument.1 with
    | true =>
      rw [setArgument_property hproperty hmid, List.filter_cons, if_pos hproperty, List.map_cons,
        getLast?_cons_or]
      exact congrArg _ ((lookup_setEntry _ _ _ _).trans (if_pos rfl))
    | false =>
      obtain ⟨key, -, rfl⟩ := setArgument_plain hproperty hmid
      rw [List.filter_cons, if_neg (by rw [hproperty]; exact Bool.false_ne_true)]
      unfold instantiateArgument
      split <;> rfl

/-- Then the last nested query of the method, if there is one. -/
theorem setNestedQueries_slot {wrapper : JsonWrapper}
    (h : setNestedQueriesInRequest model wrapper request = .ok request') :
    request'.nestedQueries.lookup propertiesMethod =
      (((wrapper.nestedQueries.filter fun query =>
        model.mapNestedQueryToAdmin4 query.1 = some propertiesMethod).map fun query =>
          undefIfEmpty query.2).getLast?).or (request.nestedQueries.lookup propertiesMethod) ∧
      ∀ dbixKey, setColumn request' dbixKey = setColumn request dbixKey := by
  unfold setNestedQueriesInRequest at h
  revert h
  generalize wrapper.nestedQueries = queries
  intro h
  induction queries generalizing request with
  | nil =>
    rw [pure_ok.mp h]
    exact ⟨rfl, fun _ => rfl⟩
  | cons query queries ih =>
    rw [List.foldlM_cons, bind_ok] at h
    obtain ⟨mid, hmid, hrest⟩ := h
    rw [bind_ok] at hmid
    obtain ⟨method, hmapped, hmid⟩ := hmid
    replace hmapped := mapped_ok.mp hmapped
    obtain rfl := pure_ok.mp hmid
    obtain ⟨hslot, hcolumns⟩ := ih hrest
    refine ⟨?_, hcolumns⟩
    rw [hslot]
    have hlookup := lookup_setEntry request.nestedQueries method propertiesMethod
      (undefIfEmpty query.2)
    by_cases hmethod : propertiesMethod = method
    · rw [if_pos hmethod] at hlookup
      rw [List.filter_cons_of_pos (by rw [hmapped, hmethod]; exact decide_eq_true rfl),
        List.map_cons, getLast?_cons_or]
      exact congrArg _ hlookup
    · rw [if_neg hmethod] at hlookup
      rw [List.filter_cons_of_neg (by simp [hmapped, Ne.symm hmethod])]
      exact congrArg _ hlookup

end Slot

/-! ### The request of an update -/

section OfUpdate

variable (u : Update)

theorem entriesOf_undefIfEmpty (value : Json) :
    entriesOf (undefIfEmpty value) = entriesOf value := by
  cases value with
  | scalar t =>
    cases t with
    | nil => rfl
    | cons c t => rfl
  | _ => rfl

/-- The values that meet in the slot. -/
def meeting : List Json :=
  (propertyArguments u).map (fun argument => .hash [argument]) ++
    (propertyQueries u).map fun query => undefIfEmpty query.2

theorem settings_eq : settings u = (meeting u).map entriesOf := by
  unfold settings meeting
  rw [List.map_append, List.map_map, List.map_map]
  refine congrArg _ (List.map_congr_left fun query _ => ?_)
  exact (entriesOf_undefIfEmpty query.2).symm

theorem lookup_slot : u.request.nestedQueries.lookup propertiesMethod = (meeting u).getLast? := by
  obtain ⟨-, r₁, r₂, harguments, hnested, hsame⟩ := made u
  rw [hsame.2.2, (setNestedQueries_slot hnested).1, setArguments_slot harguments]
  unfold meeting
  rw [List.getLast?_append]
  exact congrArg _ (Option.or_none ..)

/-- The entries of the slot are those of the last hash. -/
theorem entriesOf_slot : entriesOf (get u.request.nestedQueries propertiesMethod) = slot u := by
  unfold get slot
  rw [lookup_slot, settings_eq, List.getLast?_map]
  cases (meeting u).getLast? <;> rfl

theorem slot_mem (h : slot u ≠ []) : slot u ∈ settings u := by
  unfold slot at h ⊢
  cases hlast : (settings u).getLast? with
  | none =>
    rw [hlast] at h
    exact absurd rfl h
  | some entries => exact List.mem_of_getLast? hlast

/-- The columns that are set. -/
theorem setColumn_eq (argument : Text × Json) (hmem : argument ∈ plainArguments u) {dbixKey : Text}
    (hmapped : u.model.mapToDbixFormat argument.1 = some dbixKey) :
    setColumn u.request dbixKey = some (givenValue u argument) := by
  obtain ⟨hchecked, r₁, r₂, harguments, hnested, hsame⟩ := made u
  obtain ⟨hargument, hplain⟩ := List.mem_filter.mp hmem
  have hplain : u.model.hasProperty argument.1 = false := by simpa using hplain
  have havailable (a : Text × Json) (ha : a ∈ u.wrapper.arguments)
      (hno : u.model.hasProperty a.1 = false) : a.1 ∈ u.model.availableArguments := by
    have hcheck := check_ok.mp ((forM_ok _).mp hchecked a.1 (List.mem_map_of_mem ha))
    rw [hno, Bool.or_false] at hcheck
    exact of_decide_eq_true hcheck
  have hcolumn : setColumn u.request dbixKey = setColumn r₂ dbixKey := by
    unfold setColumn
    rw [hsame.1, hsame.2.1]
  rw [hcolumn, (setNestedQueries_slot hnested).2]
  refine setArguments_column harguments ?_ u.arguments_nodup hargument hplain hmapped
  intro a ha b hb hnoa hnob hmappeda hmappedb
  exact argument_eq_of_mapped (havailable a ha hnoa) (havailable b hb hnob) hmappeda hmappedb

theorem setColumn_other {dbixKey : Text} (hother : ∀ argument ∈ plainArguments u,
    u.model.mapToDbixFormat argument.1 ≠ some dbixKey) :
    setColumn u.request dbixKey = none := by
  obtain ⟨-, r₁, r₂, harguments, hnested, hsame⟩ := made u
  have hcolumn : setColumn u.request dbixKey = setColumn r₂ dbixKey := by
    unfold setColumn
    rw [hsame.1, hsame.2.1]
  rw [hcolumn, (setNestedQueries_slot hnested).2, setArguments_other harguments]
  · unfold setColumn
    split <;> rfl
  · intro argument hargument hplain
    exact hother argument (List.mem_filter.mpr ⟨hargument, by rw [hplain]; rfl⟩)

end OfUpdate

/-! ### The transaction -/

section Transaction

variable {db : Database} {model : Model} {order : HashOrder} {object object' : Object}
  {request : Request}

/-- The columns and the tenant of an object are the same. -/
def SameColumns (object object' : Object) : Prop :=
  object'.columns = object.columns ∧ object'.related = object.related ∧
    object'.tenantId = object.tenantId

theorem setProperty_some {key : Text} {value : Json}
    (h : setProperty db model object key value = some object') :
    ∃ tenantId row, tenantFilter model object = some tenantId ∧
      searchKey db model key tenantId = [row] ∧
      object' = { object with
        properties := Function.update object.properties row.id (some value) } := by
  obtain ⟨tenantId, htenant, hrow⟩ := Option.bind_eq_some_iff.mp h
  split at hrow
  · rename_i row hsearch
    split_ifs at hrow
    exact ⟨tenantId, row, htenant, hsearch, (Option.some.inj hrow).symm⟩
  · cases hrow

theorem mem_searchKey {key : Text} {tenantId : Option ℤ} {row : ObjectProperty}
    (h : searchKey db model key tenantId = [row]) :
    row ∈ db.tables.assignments ∧ ∃ property ∈ db.tables.properties,
      property.id = row.propertyId ∧ property.key = key := by
  have hmem : row ∈ searchKey db model key tenantId := by rw [h]; exact List.mem_singleton_self row
  obtain ⟨hrow, hfilter⟩ := List.mem_filter.mp hmem
  obtain ⟨-, hany⟩ := (Bool.and_eq_true _ _).mp hfilter
  obtain ⟨property, hproperty, hkeys⟩ := List.any_eq_true.mp hany
  simp only [Bool.and_eq_true, decide_eq_true_eq] at hkeys
  exact ⟨hrow, property, hproperty, hkeys.1.1, hkeys.1.2⟩

/-- Rows of different keys are different. -/
theorem key_eq_of_id {key key' : Text} {tenantId tenantId' : Option ℤ} {row row' : ObjectProperty}
    (h : searchKey db model key tenantId = [row]) (h' : searchKey db model key' tenantId' = [row'])
    (hid : row.id = row'.id) : key = key' := by
  obtain ⟨hrow, property, hproperty, hpropertyId, rfl⟩ := mem_searchKey h
  obtain ⟨hrow', property', hproperty', hpropertyId', rfl⟩ := mem_searchKey h'
  have hsame : row = row' := List.inj_on_of_nodup_map db.tables.assignments_nodup hrow hrow' hid
  have hproperties : property = property' :=
    List.inj_on_of_nodup_map db.tables.properties_nodup hproperty hproperty'
      (by rw [hpropertyId, hpropertyId', hsame])
  rw [hproperties]

/-- The property of an object is one row. -/
theorem PropertyOf.unique {u : Update} {key : Text} {row row' : ObjectProperty}
    (h : PropertyOf db u object key row) (h' : PropertyOf db u object key row') : row = row' := by
  obtain ⟨tenantId, htenant, hsearch⟩ := h
  obtain ⟨tenantId', htenant', hsearch'⟩ := h'
  obtain rfl : tenantId = tenantId' := Option.some.inj (htenant.symm.trans htenant')
  exact List.singleton_inj.mp (hsearch.symm.trans hsearch')

theorem PropertyOf.of_tenant {u : Update} {key : Text} {row : ObjectProperty}
    (h : PropertyOf db u object key row) (htenant : object'.tenantId = object.tenantId) :
    PropertyOf db u object' key row := by
  obtain ⟨tenantId, hfilter, hsearch⟩ := h
  refine ⟨tenantId, ?_, hsearch⟩
  rw [← hfilter]
  unfold tenantFilter
  rw [htenant]

theorem PropertyOf.key_eq {u : Update} {key key' : Text} {row row' : ObjectProperty}
    (h : PropertyOf db u object key row) (h' : PropertyOf db u object' key' row')
    (hid : row.id = row'.id) : key = key' := by
  obtain ⟨tenantId, -, hsearch⟩ := h
  obtain ⟨tenantId', -, hsearch'⟩ := h'
  exact key_eq_of_id hsearch hsearch' hid

theorem HasProperty.value_eq {u : Update} {key : Text} {value value' : Json}
    (h : HasProperty db u object key value) (h' : HasProperty db u object key value') :
    value = value' := by
  obtain ⟨row, hrow, hvalue⟩ := h
  obtain ⟨row', hrow', hvalue'⟩ := h'
  rw [hrow.unique hrow'] at hvalue
  exact Option.some.inj (hvalue.symm.trans hvalue')

/-- The properties of a list of keys are set, and only they. -/
structure PropertiesSet (db : Database) (u : Update) (entries : List (Text × Json))
    (keys : List Text) (before after : Object) : Prop where
  columns : SameColumns before after
  set : ∀ key ∈ keys, HasProperty db u after key (get entries key)
  other : ∀ id, (∀ key ∈ keys, ∀ row, PropertyOf db u before key row → row.id ≠ id) →
    after.properties id = before.properties id

variable {u : Update}

theorem PropertiesSet.none (entries : List (Text × Json)) (object : Object) :
    PropertiesSet db u entries [] object object :=
  ⟨⟨rfl, rfl, rfl⟩, fun _ h => (List.not_mem_nil h).elim, fun _ _ => rfl⟩

/-- A property that is not among the keys is as before. -/
theorem PropertiesSet.keeps {entries : List (Text × Json)} {keys : List Text} {key : Text}
    {row : ObjectProperty} (h : PropertiesSet db u entries keys object object')
    (hkey : key ∉ keys) (hrow : PropertyOf db u object key row) :
    object'.properties row.id = object.properties row.id :=
  h.other row.id fun _ hother _ hrow' hid => hkey (hrow'.key_eq hrow hid ▸ hother)

theorem setProperty_set {key : Text} {value : Json}
    (h : setProperty db u.model object key value = some object') :
    ∃ row, PropertyOf db u object key row ∧ object' = { object with
      properties := Function.update object.properties row.id (some value) } := by
  obtain ⟨tenantId, row, htenant, hsearch, hset⟩ := setProperty_some h
  exact ⟨row, ⟨tenantId, htenant, hsearch⟩, hset⟩

/-- Later keys have other rows, so that a property stays as it is set. -/
theorem setProperties_set {entries : List (Text × Json)} {keys : List Text}
    (h : keys.foldlM (fun object key => setProperty db u.model object key (get entries key)) object
      = some object') : PropertiesSet db u entries keys object object' := by
  induction keys generalizing object with
  | nil =>
    rw [← Option.some.inj h]
    exact .none entries object
  | cons key keys ih =>
    obtain ⟨mid, hmid, hrest⟩ := Option.bind_eq_some_iff.mp h
    obtain ⟨row, hrow, rfl⟩ := setProperty_set hmid
    have hset := ih hrest
    have hmidrow : PropertyOf db u { object with
        properties := Function.update object.properties row.id (some (get entries key)) }
        key row := hrow.of_tenant rfl
    refine ⟨hset.columns, ?_, ?_⟩
    · intro other hother
      by_cases hlater : other ∈ keys
      · exact hset.set other hlater
      · obtain rfl := (List.mem_cons.mp hother).resolve_right hlater
        refine ⟨row, hrow.of_tenant hset.columns.2.2, ?_⟩
        rw [hset.keeps hlater hmidrow]
        exact Function.update_self ..
    · intro id hother
      rw [hset.other id fun other hlater row' hrow' =>
        hother other (List.mem_cons_of_mem key hlater) row' (hrow'.of_tenant rfl)]
      exact Function.update_of_ne (hother key List.mem_cons_self row hrow).symm _ _

theorem customPropertiesSet_set {props : Json}
    (h : customPropertiesSet db u.model order props object = some object') :
    PropertiesSet db u (entriesOf props) (names (entriesOf props)) object object' := by
  unfold customPropertiesSet at h
  split at h
  · rename_i entries
    obtain ⟨hcolumns, hset, hother⟩ := setProperties_set h
    have hkeys (key : Text) : key ∈ order.keys (names entries) ↔ key ∈ names entries :=
      (order.perm _).mem_iff
    exact ⟨hcolumns, fun key hkey => hset key ((hkeys key).mpr hkey),
      fun id h => hother id fun key hkey => h key ((hkeys key).mp hkey)⟩
  · rw [← Option.some.inj h]
    exact .none [] object
  · cases h

/-- The other methods leave the object alone. -/
theorem execOthers_same {queries : List (Text × Json)} {methods : List Text}
    (hnot : propertiesMethod ∉ methods)
    (h : methods.foldlM (fun object method =>
      execNestedQuery db model order object method (get queries method)) object = some object') :
    object' = object := by
  induction methods generalizing object with
  | nil => exact (Option.some.inj h).symm
  | cons method methods ih =>
    obtain ⟨hne, hrest⟩ := not_or.mp (List.mem_cons.not.mp hnot)
    obtain ⟨mid, hmid, h⟩ := Option.bind_eq_some_iff.mp h
    rw [ih hrest h]
    replace hmid := (if_neg (Ne.symm hne)).symm.trans hmid
    split_ifs at hmid
    exact (Option.some.inj hmid).symm

/-- The nested queries set the properties of the slot. -/
theorem execNestedQueries_set
    (h : execNestedQueries db u.model order u.request object = some object') :
    PropertiesSet db u (slot u) (names (slot u)) object object' := by
  rw [← entriesOf_slot]
  unfold execNestedQueries at h
  have hperm := order.perm (names u.request.nestedQueries)
  have hnodup := hperm.nodup_iff.mpr (List.nodup_dedup _)
  by_cases hthere : propertiesMethod ∈ order.keys (names u.request.nestedQueries)
  · obtain ⟨front, back, hsplit⟩ := List.append_of_mem hthere
    rw [hsplit] at h hnodup
    have hnodup' := List.nodup_middle.mp hnodup
    obtain ⟨hnot, -⟩ := List.nodup_cons.mp hnodup'
    rw [List.mem_append, not_or] at hnot
    rw [List.foldlM_append] at h
    obtain ⟨mid, hfront, h⟩ := Option.bind_eq_some_iff.mp h
    obtain ⟨mid', hset, hback⟩ := Option.bind_eq_some_iff.mp h
    rw [execOthers_same hnot.2 hback]
    rw [execOthers_same hnot.1 hfront] at hset
    exact customPropertiesSet_set ((if_pos rfl).symm.trans hset)
  · have hnone : get u.request.nestedQueries propertiesMethod = .null := by
      unfold get
      rw [List.lookup_eq_none_iff.mpr]
      · rfl
      · intro query hquery
        refine bne_iff_ne.mpr fun hsame => ?_
        exact hthere (hperm.mem_iff.mpr (List.mem_dedup.mpr (hsame ▸ List.mem_map_of_mem hquery)))
    rw [hnone, execOthers_same hthere h]
    exact .none [] object

/-- A column is what it is set to, or as before. -/
theorem updateObject_set
    (h : updateObject db u.model order u.request object = some object') :
    (∀ dbixKey, object'.column dbixKey =
      (setColumn u.request dbixKey).getD (object.column dbixKey)) ∧
    object'.tenantId = object.tenantId ∧
    (∀ key ∈ names (slot u), HasProperty db u object' key (get (slot u) key)) ∧
    ∀ id, (∀ key ∈ names (slot u), ∀ row, PropertyOf db u object key row → row.id ≠ id) →
      object'.properties id = object.properties id := by
  obtain ⟨mid, hcolumns, h⟩ := Option.bind_eq_some_iff.mp h
  obtain ⟨mid', hrelated, h⟩ := Option.bind_eq_some_iff.mp h
  unfold updateColumns at hcolumns
  unfold updateRelatedObjects at hrelated
  split_ifs at hcolumns hrelated
  obtain rfl := Option.some.inj hcolumns
  obtain rfl := Option.some.inj hrelated
  obtain ⟨⟨hcolumns, hrelated, htenant⟩, hset, hother⟩ := execNestedQueries_set h
  refine ⟨?_, htenant, hset, ?_⟩
  · intro dbixKey
    unfold Object.column setColumn
    split
    · rw [hcolumns]
    · rw [hrelated]
  · intro id hrows
    exact hother id fun key hkey row hrow => hrows key hkey row (hrow.of_tenant rfl)

/-- An object has all that is given iff nothing of it is lost in the slot. -/
theorem applied_iff (h : updateObject db u.model order u.request object = some object') :
    Applied db u object object' ↔ Kept db u object := by
  obtain ⟨hcolumns, htenant, hset, hother⟩ := updateObject_set h
  have hkeeps {key : Text} {row : ObjectProperty} (hkey : key ∉ names (slot u))
      (hrow : PropertyOf db u object key row) :
      object'.properties row.id = object.properties row.id :=
    hother row.id fun _ hin _ hrow' hid => hkey (hrow'.key_eq hrow hid ▸ hin)
  constructor
  · intro happlied entries hentries key hkey
    have hgiven := happlied.properties entries hentries key hkey
    by_cases hin : key ∈ names (slot u)
    · exact .inl ⟨hin, (hset key hin).value_eq hgiven⟩
    · obtain ⟨row, hrow, hvalue⟩ := hgiven
      replace hrow := hrow.of_tenant htenant.symm
      exact .inr ⟨hin, row, hrow, hkeeps hin hrow ▸ hvalue⟩
  · intro hkept
    refine ⟨?_, ?_, ?_, ?_⟩
    · intro argument hargument dbixKey hmapped
      rw [hcolumns, setColumn_eq u argument hargument hmapped]
      rfl
    · intro dbixKey hnone
      rw [hcolumns, setColumn_other u hnone]
      rfl
    · intro entries hentries key hkey
      obtain ⟨hin, hvalue⟩ | ⟨hin, row, hrow, hvalue⟩ := hkept entries hentries key hkey
      · exact hvalue ▸ hset key hin
      · exact ⟨row, hrow.of_tenant htenant, (hkeeps hin hrow).trans hvalue⟩
    · intro id hnot
      refine hother id fun key hkey => ?_
      have hslot : slot u ≠ [] := by
        intro hempty
        rw [hempty] at hkey
        exact List.not_mem_nil hkey
      exact hnot (slot u) (slot_mem u hslot) key hkey

end Transaction

/-! ### The whole update -/

section Whole

/-- The objects of a list are updated one after the other. -/
theorem updateObjects_forall₂ {db : Database} {model : Model} {order : HashOrder}
    {request : Request} {objects objects' : List Object}
    (h : updateObjects db model order request objects = some objects') :
    List.Forall₂ (fun object object' => updateObject db model order request object = some object')
      objects objects' := by
  induction objects generalizing objects' with
  | nil =>
    rw [← Option.some.inj h]
    exact .nil
  | cons object objects ih =>
    obtain ⟨first, hfirst, h⟩ := Option.bind_eq_some_iff.mp h
    obtain ⟨rest, hrest, rfl⟩ := Option.map_eq_some_iff.mp h
    exact .cons hfirst (ih hrest)

/-- An update that succeeds applies all arguments iff none of the properties given is lost in the
slot, for any of the objects. -/
theorem update_iff (db : Database) (u : Update) (order : HashOrder)
    (objects objects' : List Object)
    (h : update db u.model order u.request objects = some objects') :
    List.Forall₂ (Applied db u) objects objects' ↔ ∀ object ∈ objects, Kept db u object := by
  unfold update at h
  have hall := updateObjects_forall₂ (Option.ite_none_left_eq_some.mp h).2
  clear h
  induction hall with
  | nil => simp
  | cons hfirst _ ih =>
    rw [List.forall₂_cons, List.forall_mem_cons]
    exact and_congr (applied_iff hfirst) ih

end Whole

/-! ### Two properties of a machine -/

section Painting

/-- Two properties of virtual machines, and a database that takes everything. -/
def paints : Database where
  tables := {
    properties := [⟨1, "color".toList, 3⟩, ⟨2, "size".toList, 3⟩]
    assignments := [⟨7, 1, "vm".toList⟩, ⟨8, 2, "vm".toList⟩]
    properties_nodup := by decide
    keys_nodup := by decide
    assignments_nodup := by decide
    pairs_nodup := by decide
    kinds := by decide
    references := by decide }
  takesColumns := fun _ _ => true
  takesRelated := fun _ _ => true
  takesProperty := fun _ _ _ => true
  takesOther := fun _ _ _ => true

def painter : Model where
  administrator := {
    id := 5
    tenantId := 3
    acls := []
    scope := [3] }
  qvdObject := "VM"
  typeOfAction := .update
  properties := [⟨"color".toList, 3⟩, ⟨"size".toList, 3⟩]
  multitenant := true
  computeDefault := fun _ _ => .ok none
  computeValue := fun _ value => value

/-- The update of a machine. -/
def painting (arguments nestedQueries : List (Text × Json)) : JsonWrapper where
  filtersObj := .group "-and".toList (.leaf "id".toList ['='] [.scalar ['1']] .nil) .nil
  arguments
  nestedQueries
  fields := []
  orderDirection := none
  orderCriteria := none

/-- A machine without properties. -/
def unpainted : Object where
  id := 1
  tenantId := 3
  columns := fun _ => .null
  related := fun _ => .null
  properties := fun _ => none

def color : Text × Json := ("color".toList, .scalar "red".toList)

def size : Text × Json := ("size".toList, .scalar "big".toList)

theorem exists_painting (wrapper : JsonWrapper)
    (harguments : (wrapper.arguments.map Prod.fst).Nodup)
    (hqueries : (wrapper.nestedQueries.map Prod.fst).Nodup)
    (h : (newRequest painter wrapper).toOption.any (fun request =>
      (updateObject paints painter (rotated 0) request unpainted).isSome) = true) :
    ∃ (u : Update) (object : Object), u.model = painter ∧ u.wrapper = wrapper ∧
      updateObject paints u.model (rotated 0) u.request unpainted = some object := by
  obtain ⟨request, hrequest, hupdate⟩ := (Option.any_eq_true _ _).mp h
  obtain ⟨object, hobject⟩ := Option.isSome_iff_exists.mp hupdate
  have haccepted : newRequest painter wrapper = .ok request := by
    cases hnew : newRequest painter wrapper with
    | error e =>
      rw [hnew] at hrequest
      cases hrequest
    | ok request' =>
      rw [hnew] at hrequest
      exact congrArg _ (Option.some.inj hrequest)
  exact ⟨⟨painter, wrapper, request, rfl, harguments, hqueries, haccepted⟩, object, rfl, rfl,
    hobject⟩

/-- Of two properties only the last is set. -/
theorem color_lost : ∃ (u : Update) (object : Object),
    u.wrapper = painting [color, size] [] ∧
      update paints u.model (rotated 0) u.request [unpainted] = some [object] ∧
        ¬ Applied paints u unpainted object := by
  obtain ⟨u, object, hmodel, hwrapper, hobject⟩ :=
    exists_painting (painting [color, size] []) (by decide) (by decide) (by decide +kernel)
  have hsettings : settings u = [[color], [size]] := by
    unfold settings propertyArguments propertyQueries
    rw [hmodel, hwrapper]
    rfl
  refine ⟨u, object, hwrapper, ?_, ?_⟩
  · simp [update, updateObjects, hobject]
  · intro happlied
    have hkept := (applied_iff hobject).mp happlied [color] (by simp [hsettings]) color.1
      (by decide)
    unfold slot at hkept
    rw [hsettings] at hkept
    obtain ⟨hin, -⟩ | ⟨-, row, -, hvalue⟩ := hkept
    · revert hin
      decide
    · cases hvalue

/-- One property is set. -/
theorem update_iff_color : ∃ (u : Update) (object : Object),
    u.wrapper = painting [("name".toList, .scalar "canvas".toList), color] [] ∧
      (List.Forall₂ (Applied paints u) [unpainted] [object] ↔
        ∀ object ∈ [unpainted], Kept paints u object) := by
  obtain ⟨u, object, -, hwrapper, hobject⟩ :=
    exists_painting (painting [("name".toList, .scalar "canvas".toList), color] []) (by decide)
      (by decide) (by decide +kernel)
  refine ⟨u, object, hwrapper, update_iff paints u (rotated 0) [unpainted] [object] ?_⟩
  simp [update, updateObjects, hobject]

end Painting

end Qvd.RequestUpdate
