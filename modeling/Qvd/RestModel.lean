import Qvd.RestFilter
import Qvd.RestTables
import Mathlib.Data.Int.Notation

/-!
The Model of one kind of action of the administration API: what the class variables say
about its object and type of action, the custom properties in the database, and the rights
of the administrator who asks for it.
-/
namespace Qvd.RestModel

open NumberedPath RestFilter RestTables

inductive TypeOfAction
  | list
  | create
  | createOrUpdate
  | update
  | delete
  | exec
  | state
deriving DecidableEq, Repr

def TypeOfAction.name : TypeOfAction → String
  | .list => "list"
  | .create => "create"
  | .createOrUpdate => "create_or_update"
  | .update => "update"
  | .delete => "delete"
  | .exec => "exec"
  | .state => "state"

/-- Does the type match /^create(_or_update)?$/? -/
def TypeOfAction.creates (type : TypeOfAction) : Bool :=
  type = .create || type = .createOrUpdate

/-- The words of a table entry. -/
def words (chunks : List String) : List Text :=
  chunks.flatMap fun chunk => chunk.toList.splitOn ' '

section Patterns

/-- What is left of a text after one or more characters that are not dots. -/
def afterNoDots : Text → List Text
  | [] => []
  | c :: rest => if c = '.' then [] else rest :: afterNoDots rest

/-- What may be left of a text after a match at its start. -/
def Re.rests : Re → Text → List Text
  | .lit word, text => (word.toList.isPrefixOf? text).toList
  | .noDots, text => afterNoDots text
  | .alt a b, text => rests a text ++ rests b text
  | .seq a b, text => (rests a text).flatMap (rests b)

/-- The end of a text is also before a line break there. -/
def AclRe.matchesName (re : AclRe) (acl : Text) : Bool :=
  (Re.rests re.body acl).any fun rest => !re.toEnd || rest.isEmpty || rest == ['\n']

end Patterns

section Administrators

def superadminTenantId : ℤ := 0

def commonTenantId : ℤ := -1

structure Administrator where
  id : ℤ
  tenantId : ℤ
  acls : List Text
  /-- The tenants the administrator was loaded with. -/
  scope : List ℤ
deriving Repr

def Administrator.isSuperadmin (admin : Administrator) : Bool :=
  admin.tenantId = superadminTenantId

/-- re_is_allowed_to. Of several patterns one is enough, and none are always met. -/
def Administrator.reIsAllowedTo (admin : Administrator) (acls : List AclRe) : Bool :=
  acls.isEmpty || acls.any fun re => admin.acls.any (AclRe.matchesName re)

def Administrator.tenantsScope (admin : Administrator) (includeCommonTenant : Bool) :
    List ℤ :=
  admin.scope ++ if includeCommonTenant then [commonTenantId] else []

end Administrators

/-- A custom property of the object, as the database lists it. -/
structure PropertyRow where
  key : Text
  tenantId : ℤ
deriving Repr

/-- The last fields are of the installation: whether it has several tenants, and the
functions that the class variables refer to. -/
structure Model where
  administrator : Administrator
  qvdObject : String
  typeOfAction : TypeOfAction
  properties : List PropertyRow
  multitenant : Bool
  computeDefault : Text → List (Text × Json) → Except ApiError (Option Json)
  computeValue : Text → Json → Json

namespace Model

variable (model : Model)

section Info

/-- set_info_by_type_of_action_and_qvd_object. -/
def infoByTypeOfAction (repo : List (String × List (String × List String))) : List Text :=
  match repo.lookup model.typeOfAction.name with
  | none => []
  | some byObject =>
    match byObject.lookup model.qvdObject with
    | some entry => words entry
    | none => words ((byObject.lookup "default").getD [])

/-- set_info_by_qvd_object. -/
def infoByObject (repo : List (String × List String)) : List Text :=
  words ((repo.lookup model.qvdObject).getD [])

/-- The mapping of a key of the object, the same for filters, arguments and order. -/
def mapToDbixFormat (key : Text) : Option Text :=
  (((filtersToDbixFormat.lookup model.qvdObject).getD []).find?
    fun entry => entry.1.toList = key).map fun entry => entry.2.toList

def mapNestedQueryToAdmin4 (nestedQuery : Text) : Option Text :=
  (((nestedQueriesToAdmin4.lookup model.qvdObject).getD []).find?
    fun entry => entry.1.toList = nestedQuery).map fun entry => entry.2.toList

def availableFilters : List Text :=
  model.infoByTypeOfAction RestTables.availableFilters

/-- Superadmins may also ask a list for the tenant, where the object has one. -/
def tenantFields : List Text :=
  if model.typeOfAction = .list && model.administrator.isSuperadmin then
    ["tenant_id".toList, "tenant_name".toList].filter
      fun field => (model.mapToDbixFormat field).isSome
  else []

def availableFields : List Text :=
  model.infoByTypeOfAction RestTables.availableFields ++ model.tenantFields

def availableOrderCriteria : List Text :=
  model.infoByObject RestTables.availableOrderCriteria

def defaultOrderCriteria : List Text :=
  model.infoByTypeOfAction RestTables.defaultOrderCriteria

def availableArguments : List Text :=
  model.infoByObject RestTables.availableArguments

def availableNestedQueries : List Text :=
  model.infoByTypeOfAction RestTables.availableNestedQueries

def mandatoryArguments : List Text :=
  model.infoByObject RestTables.mandatoryArguments

def mandatoryFilters : List Text :=
  model.infoByTypeOfAction RestTables.mandatoryFilters

def defaultArguments : List (Text × Option Text) :=
  ((defaultArgumentValues.lookup model.qvdObject).getD []).map
    fun entry => (entry.1.toList, entry.2.map String.toList)

def getDefaultArgumentValue (argument : Text) (arguments : List (Text × Json)) :
    Except ApiError (Option Json) :=
  match model.defaultArguments.lookup argument with
  | none => return none
  | some (some value) => return some (.scalar value)
  | some none => model.computeDefault argument arguments

def normalizeValue (key : Text) (value : Json) : Json :=
  if key ∈ model.infoByObject valuesNormalizator then model.computeValue key value else value

/-- The operators of the API are those of the database, but for one. -/
def normalizeOperator (op : Text) : Text :=
  if op = "~".toList then "LIKE".toList else op

def directlyTenantRelated : Bool :=
  model.qvdObject ∈ RestTables.directlyTenantRelated

end Info

section Properties

/-- The objects that the database has custom properties for. -/
def propertyObjects : List Text :=
  words ["user vm log host osf di role administrator tenant"]

/-- custom_properties_info: by key, the tenant of the last row with it. -/
def customPropertyTenant (key : Text) : Option ℤ :=
  if model.qvdObject.toList.map Char.toLower ∈ propertyObjects then
    ((model.properties.filter fun row => row.key = key).getLast?).map PropertyRow.tenantId
  else none

def hasProperty (key : Text) : Bool :=
  if model.administrator.isSuperadmin then (model.customPropertyTenant key).isSome
  else model.customPropertyTenant key = some model.administrator.tenantId

end Properties

section Acls

/-- get_acls. -/
def getAcls (repo : List (String × List (String × List AclRe))) (element : Text) :
    List AclRe :=
  (((repo.lookup model.qvdObject).getD []).find?
    fun entry => entry.1.toList = element).elim [] Prod.snd

def getAclsForFilter (filter : Text) : List AclRe :=
  model.getAcls aclsForFilters filter

def getAclsForField (field : Text) : List AclRe :=
  model.getAcls aclsForFields field

def getAclsForOrderCriterium (criterium : Text) : List AclRe :=
  model.getAcls aclsForOrderCriteria criterium

def getAclsForArgumentInCreation (argument : Text) : List AclRe :=
  model.getAcls aclsForArgumentsInCreation argument

def getAclsForArgumentInUpdate (argument : Text) : List AclRe :=
  model.getAcls aclsForArgumentsInUpdate argument

def getAclsForNestedQueryInCreation (nestedQuery : Text) : List AclRe :=
  model.getAcls aclsForArgumentsInCreation nestedQuery

def getAclsForNestedQueryInUpdate (nestedQuery : Text) : List AclRe :=
  model.getAcls aclsForArgumentsInUpdate nestedQuery

end Acls

end Model

end Qvd.RestModel
