import Qvd.Checks
import Qvd.RestModel

/-!
A request of the administration API as its JSON wrapper holds it, and the checks that it
has to pass: whether its elements are available and whether the administrator is allowed
the ACLs they need.
-/
namespace Qvd.RequestChecks

open NumberedPath RestFilter RestModel Checks

/-- A decoded request. A part that is not there is `none`. -/
structure Query where
  filters : Option Json
  arguments : List (Text × Json)
  fields : List Text
  orderDirection : Option Text
  orderCriteria : Option (List Text)
deriving Repr

/-- Arguments and nested queries apart, and the filters in normal form. -/
structure JsonWrapper where
  filtersObj : Filters
  arguments : List (Text × Json)
  nestedQueries : List (Text × Json)
  fields : List Text
  orderDirection : Option Text
  orderCriteria : Option (List Text)
deriving Repr

section Wrapper

/-- Does a key match /^__.+__$/? -/
def isNestedQuery (key : Text) : Bool :=
  let text := chomp key
  5 ≤ text.length && text.take 2 == ['_', '_'] && text.drop (text.length - 2) == ['_', '_'] &&
    !text.contains '\n'

/-- Set the value of a key of a hash. -/
def setEntry (hash : List (Text × Json)) (key : Text) (value : Json) : List (Text × Json) :=
  if (hash.lookup key).isSome then
    hash.map fun entry => if entry.1 = key then (key, value) else entry
  else hash ++ [(key, value)]

/-- A value of the hash under a matrix key; an undefined value there becomes a hash. -/
def nestedValue (hash : List (Text × Json)) (matrixKey nestedKey : Text) :
    Except ApiError Json :=
  match hash.lookup matrixKey with
  | none | some .null => .ok .null
  | some (.hash entries) => .ok ((entries.lookup nestedKey).getD .null)
  | some _ => .error .notAHash

/-- The entries of a hash go up one level, under the matrix key and their own. -/
def flattenKey (hash : List (Text × Json)) (matrixKey : Text) :
    Except ApiError (List (Text × Json)) :=
  if matrixKey = "__properties__".toList then .ok hash
  else match hash.lookup matrixKey with
    | some (.hash entries) => do
      let hash ← (entries.map Prod.fst).foldlM (fun hash nestedKey => do
        let value ← nestedValue hash matrixKey nestedKey
        return setEntry hash (matrixKey ++ nestedKey) value) hash
      return hash.filter fun entry => entry.1 ≠ matrixKey
    | _ => .ok hash

/-- get_flatten_nested_queries. -/
def getFlattenNestedQueries (arguments : List (Text × Json)) :
    Except ApiError (List (Text × Json)) :=
  let nestedQueries := arguments.filter fun entry => isNestedQuery entry.1
  (nestedQueries.map Prod.fst).foldlM flattenKey nestedQueries

/-- The object of the filters, the root operator and its level. -/
def newFilter (filters : Json) : Except ApiError Filters :=
  match normalizeFilter filters with
  | .error _ => .error .invalidFilterFormat
  | .ok items => .ok (.group rootOp items .nil)

def newJson (query : Query) : Except ApiError JsonWrapper := do
  let nestedQueries ← getFlattenNestedQueries query.arguments
  let filtersObj ← newFilter (query.filters.getD (.hash []))
  return {
    filtersObj
    arguments := query.arguments.filter fun entry => !isNestedQuery entry.1
    nestedQueries
    fields := query.fields
    orderDirection := query.orderDirection
    orderCriteria := query.orderCriteria }

namespace JsonWrapper

variable (wrapper : JsonWrapper)

def filterNameList : Except ApiError (List Text) := do
  return (← filterList wrapper.filtersObj).map nameFromPath

def argumentsList : List Text :=
  wrapper.arguments.map Prod.fst

def nestedQueriesList : List Text :=
  wrapper.nestedQueries.map Prod.fst

def hasArgument (argument : Text) : Bool :=
  argument ∈ wrapper.argumentsList

end JsonWrapper

end Wrapper

section Checks

variable (model : Model) (wrapper : JsonWrapper)

def allowed (acls : List RestTables.AclRe) : Bool :=
  model.administrator.reIsAllowedTo acls

def checkFieldsValidity : Except ApiError Unit :=
  wrapper.fields.forM fun field => do
    check (field ∈ model.availableFields || model.hasProperty field) (.exception 6250 field)
    check (allowed model (model.getAclsForField field)) (.exception 4250 field)

/-- The key whose ACLs a filter needs. -/
def filterAclKey (filter : Text) : Text :=
  if model.hasProperty filter then "properties".toList else filter

def checkFiltersValidity : Except ApiError Unit := do
  let filters ← wrapper.filterNameList
  filters.forM fun filter =>
    check (filter ∈ model.availableFilters || model.hasProperty filter)
      (.exception 6210 filter)
  filters.forM fun filter =>
    check (allowed model (model.getAclsForFilter (filterAclKey model filter)))
      (.exception 4220 filter)
  model.mandatoryFilters.forM fun filter =>
    check (filter ∈ filters) (.exception 6220 filter)

def checkUpdateArgumentsValidity : Except ApiError Unit :=
  wrapper.argumentsList.forM fun argument =>
    check (argument ∈ model.availableArguments || model.hasProperty argument)
      (.exception 6230 argument)

/-- Is a mandatory argument given, by the request, a default or the administrator? -/
def mandatoryArgumentGiven (argument : Text) : Except ApiError Bool := do
  if wrapper.hasArgument argument then return true
  let default ← model.getDefaultArgumentValue argument wrapper.arguments
  return default.isSome ||
    argument = "tenant_id".toList && !model.administrator.isSuperadmin

def checkCreateArgumentsValidity : Except ApiError Unit := do
  model.mandatoryArguments.forM fun argument => do
    let given ← mandatoryArgumentGiven model wrapper argument
    check given (.exception 6240 argument)
  wrapper.argumentsList.forM fun argument =>
    check (argument ∈ model.availableArguments || argument ∈ model.mandatoryArguments)
      (.exception 6230 argument)
  wrapper.argumentsList.forM fun argument =>
    check (allowed model (model.getAclsForArgumentInCreation argument))
      (.exception 4230 argument)

/-- A look-up in the creation ACLs is set up in the source, and then not used. -/
def checkNestedQueriesValidity : Except ApiError Unit :=
  wrapper.nestedQueriesList.forM fun nestedQuery => do
    check (nestedQuery ∈ model.availableNestedQueries) (.exception 6230 nestedQuery)
    check (allowed model (model.getAclsForNestedQueryInUpdate nestedQuery))
      (.exception 4230 nestedQuery)

def checkOrderByValidity : Except ApiError Unit := do
  wrapper.orderDirection.toList.forM fun direction =>
    check (direction ∈ ["-asc".toList, "-desc".toList]) (.exception 6600 direction)
  (wrapper.orderCriteria.getD []).forM fun criterium =>
    check (criterium ∈ model.availableOrderCriteria) (.exception 6610 criterium)
  (wrapper.orderCriteria.getD []).forM fun criterium =>
    check (allowed model (model.getAclsForOrderCriterium criterium))
      (.exception 4260 criterium)

/-- The checks of BUILD, in their order. -/
def checkRequest : Except ApiError Unit := do
  checkFieldsValidity model wrapper
  checkFiltersValidity model wrapper
  checkWhen (model.typeOfAction = .update) (checkUpdateArgumentsValidity model wrapper)
  checkWhen model.typeOfAction.creates (checkCreateArgumentsValidity model wrapper)
  checkWhen (model.typeOfAction = .create || model.typeOfAction = .update)
    (checkNestedQueriesValidity model wrapper)
  checkOrderByValidity model wrapper

end Checks

end Qvd.RequestChecks
