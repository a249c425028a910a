import Qvd.RequestChecks

/-!
The making of a request of the administration API after its checks: its arguments and
nested queries in the terms of the database, the filters that the API adds by itself, and
the filters that go to the database.
-/
namespace Qvd.RequestBuild

open NumberedPath RestFilter RestModel RequestChecks Checks

/-- What the methods of the API read: the columns of the main table and of others, and the
methods of the nested queries with what they are called with. -/
structure Request where
  filters : Filters
  arguments : List (Text × Json) := []
  relatedObjectsArguments : List (Text × Json) := []
  nestedQueries : List (Text × Json) := []
  orderBy : List Text := []
deriving Repr

def mapped (column : Option Text) (element : Text) : Except ApiError Text :=
  match column with
  | some column => .ok column
  | none => .error (.noMapping element)

def integer (n : ℤ) : Json :=
  .scalar (Int.repr n).toList

/-- An empty text is no value. -/
def undefIfEmpty : Json → Json
  | .scalar [] => .null
  | value => value

section Arguments

/-- The columns of the main table have the prefix me. -/
def instantiateArgument (request : Request) (dbixKey : Text) (value : Json) : Request :=
  match "me.".toList.isPrefixOf? dbixKey with
  | some column =>
    { request with arguments := setEntry request.arguments column (undefIfEmpty value) }
  | none =>
    { request with
      relatedObjectsArguments :=
        setEntry request.relatedObjectsArguments dbixKey (undefIfEmpty value) }

def setNestedQuery (request : Request) (method : Text) (value : Json) : Request :=
  { request with nestedQueries := setEntry request.nestedQueries method (undefIfEmpty value) }

variable (model : Model)

def setArgument (request : Request) (argument : Text × Json) : Except ApiError Request :=
  if model.hasProperty argument.1 then do
    let key := "__properties__".toList
    let method ← mapped (model.mapNestedQueryToAdmin4 key) key
    return setNestedQuery request method (.hash [argument])
  else do
    let dbixKey ← mapped (model.mapToDbixFormat argument.1) argument.1
    return instantiateArgument request dbixKey (model.normalizeValue argument.1 argument.2)

/-- The arguments that are left when those of properties are taken out. -/
def withoutProperties (wrapper : JsonWrapper) : JsonWrapper :=
  { wrapper with
    arguments := wrapper.arguments.filter fun argument => !model.hasProperty argument.1 }

def setDefault (wrapper : JsonWrapper) (request : Request) (key : Text) :
    Except ApiError Request :=
  if wrapper.hasArgument key then return request
  else do
    let dbixKey ← mapped (model.mapToDbixFormat key) key
    let value ← model.getDefaultArgumentValue key wrapper.arguments
    return instantiateArgument request dbixKey (value.getD .null)

def setArgumentsInRequest (wrapper : JsonWrapper) (request : Request) :
    Except ApiError Request := do
  let request ← wrapper.arguments.foldlM (setArgument model) request
  if model.typeOfAction.creates then
    (model.defaultArguments.map Prod.fst).foldlM
      (setDefault model (withoutProperties model wrapper)) request
  else return request

def setNestedQueriesInRequest (wrapper : JsonWrapper) (request : Request) :
    Except ApiError Request :=
  wrapper.nestedQueries.foldlM (fun request nestedQuery => do
    let method ← mapped (model.mapNestedQueryToAdmin4 nestedQuery.1) nestedQuery.1
    return setNestedQuery request method nestedQuery.2) request

def setOrderByInRequest (wrapper : JsonWrapper) (request : Request) :
    Except ApiError Request := do
  let orderBy ← (wrapper.orderCriteria.getD model.defaultOrderCriteria).mapM
    fun criterium => mapped (model.mapToDbixFormat criterium) criterium
  return { request with orderBy }

end Arguments

section AdHoc

def tenantIdKey : Text :=
  "tenant_id".toList

def adminIdKey : Text :=
  "admin_id".toList

variable (model : Model)

/-- Add a filter at the root. -/
def addAtRoot (request : Request) (filter : Text) (value : Json) : Except ApiError Request := do
  let filters ← addFilter request.filters filter value none
  return { request with filters }

/-- check_unique_admin_in_acls_search and its like for roles. -/
def checkUnique (filter : Text) (request : Request) : Except ApiError Request := do
  match ← filterValue request.filters filter with
  | none => .error .undefinedValue
  | some values =>
    if values.length = 1 then .ok request else .error (.exception 6322 filter)

def checkUniqueRole (request : Request) : Except ApiError Request :=
  if model.qvdObject = "Operative_Acls_In_Role" then checkUnique "role_id".toList request
  else .ok request

def setDefaultAdminId (request : Request) : Except ApiError Request := do
  match ← filterValue request.filters adminIdKey with
  | some _ => return request
  | none =>
    addAtRoot request adminIdKey (.hash [("=".toList, integer model.administrator.id)])

def checkUniqueAdmin (request : Request) : Except ApiError Request :=
  if model.qvdObject = "Operative_Acls_In_Administrator" then do
    let request ← setDefaultAdminId model request
    checkUnique adminIdKey request
  else .ok request

def hideRecoveryModeAdministrator (request : Request) : Except ApiError Request :=
  if model.qvdObject = "Administrator" then
    addAtRoot request "id".toList (.hash [("!=".toList, .scalar ['0'])])
  else .ok request

def forzeFilteringByTenant (request : Request) : Except ApiError Request :=
  if tenantIdKey ∉ model.availableFilters then .ok request
  else do
    let paths ← filterList request.filters
    if tenantIdKey ∈ paths.map nameFromPath then
      if model.administrator.isSuperadmin then .ok request
      else .error (.exception 4220 tenantIdKey)
    else if model.qvdObject = "Log" && model.administrator.isSuperadmin then .ok request
    else addAtRoot request tenantIdKey (.array
      ((model.administrator.tenantsScope (model.typeOfAction = .list)).map integer))

def forzeOwnAdminId (request : Request) : Except ApiError Request :=
  if model.qvdObject ∈
      ["Views_Setup_Attributes_Administrator", "Views_Setup_Properties_Administrator"] then
    if model.typeOfAction = .createOrUpdate then do
      let dbixKey ← mapped (model.mapToDbixFormat adminIdKey) adminIdKey
      return instantiateArgument request dbixKey (integer model.administrator.id)
    else addAtRoot request adminIdKey (integer model.administrator.id)
  else .ok request

def forzeFilteringTenantsByTenant (request : Request) : Except ApiError Request :=
  if model.qvdObject = "Tenant" then
    addAtRoot request "id".toList
      (.array ((model.administrator.tenantsScope false).map integer))
  else .ok request

/-- Without several tenants the configuration is that of all. -/
def forzeTenantAssignment (wrapper : JsonWrapper) (request : Request) :
    Except ApiError Request :=
  if model.typeOfAction.creates && model.directlyTenantRelated then
    if model.administrator.isSuperadmin then
      if wrapper.hasArgument tenantIdKey then .ok request
      else .error (.exception 6240 tenantIdKey)
    else do
      let dbixKey ← mapped (model.mapToDbixFormat tenantIdKey) tenantIdKey
      let tenantId := if !model.multitenant && model.qvdObject = "Config" then commonTenantId
        else model.administrator.tenantId
      return instantiateArgument request dbixKey (integer tenantId)
  else .ok request

/-- BUILD. -/
def newRequest (wrapper : JsonWrapper) : Except ApiError Request := do
  checkRequest model wrapper
  let request ← setArgumentsInRequest model wrapper { filters := wrapper.filtersObj }
  let request ← setNestedQueriesInRequest model (withoutProperties model wrapper) request
  let request ← setOrderByInRequest model wrapper request
  let request ← checkUniqueRole model request
  let request ← checkUniqueAdmin model request
  let request ← hideRecoveryModeAdministrator model request
  let request ← forzeFilteringByTenant model request
  let request ← forzeOwnAdminId model request
  let request ← forzeFilteringTenantsByTenant model request
  forzeTenantAssignment model (withoutProperties model wrapper) request

/-- process_query, up to the method of the API that gets the request. The ACLs are those of
the action itself. -/
def processQuery (acls : List RestTables.AclRe) (query : Query) : Except ApiError Request := do
  let wrapper ← newJson query
  check (model.administrator.reIsAllowedTo acls) (.exception 4210 [])
  newRequest model wrapper

end AdHoc

section Filters

variable (model : Model)

/-- The suffix of the join for one property of several. -/
def propertySuffix (found : ℕ) : Text :=
  if found > 1 then '_' :: Nat.toDigits 10 found else []

def valueColumn (found : ℕ) : Text :=
  "properties".toList ++ propertySuffix found ++ ".value".toList

def keyColumn (found : ℕ) : Text :=
  "properties_list".toList ++ propertySuffix found ++ ".key".toList

/-- The value of a filter in the form of the database, under its operator. -/
def dbixValue (op : Option Text) (values : Option (List Json)) : Json :=
  .hash [(op.getD [], values.elim .null .array)]

/-- Translate the filter at a path; the state counts the properties found. -/
def translateFilter (state : Filters × ℕ) (path : Text) : Except ApiError (Filters × ℕ) := do
  let (filters, found) := state
  let key := nameFromPath path
  let values ← filterValue filters path
  if model.hasProperty key then do
    let found := found + 1
    let op ← filterOperator filters path
    let filters ← setFilterValue filters path
      (dbixValue (op.map Model.normalizeOperator) values)
    let filters ← setFilterKey filters path (valueColumn found)
    let filters ← addFilter filters (basedirFromPath path)
      (.hash [("=".toList, .scalar key)]) (some (keyColumn found))
    return (filters, found)
  else do
    let column ← mapped (model.mapToDbixFormat key) key
    let values := values.map (List.map (model.normalizeValue key))
    let op ← filterOperator filters path
    let filters ← setFilterValue filters path
      (dbixValue (op.map Model.normalizeOperator) values)
    let filters ← setFilterKey filters path column
    return (filters, found)

def getDbiFormatFilters (filters : Filters) : Except ApiError Filters := do
  let paths ← filterList filters
  let (filters, _) ← paths.foldlM (translateFilter model) (filters, 0)
  return filters

end Filters

end Qvd.RequestBuild
