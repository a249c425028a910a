import Mathlib.Data.List.Basic

/-!
The class variables of the Model of the administration API: for every kind of object and
action what a request may contain, the database columns behind it, and the patterns of
the ACLs it needs. The entries stand in the order of the source.
-/
namespace Qvd.RestTables

/-- The regular expressions the tables are made of. -/
inductive Re
  | lit (text : String)
  | noDots
  | alt (a b : Re)
  | seq (a b : Re)
deriving Repr

/-- A pattern is bound to the start of an ACL name, and to its end unless it is open. -/
structure AclRe where
  body : Re
  toEnd : Bool := true
deriving Repr

def only (text : String) : AclRe :=
  { body := .lit text }

def startsWith (text : String) : AclRe :=
  { body := .lit text, toEnd := false }

def seeVmOrVmList (text : String) : AclRe :=
  { body := .seq (.alt (.lit "vm.see.") (.seq .noDots (.lit ".see.vm-list-"))) (.lit text) }

def seeTagsOrDiList : AclRe :=
  { body := .seq (.alt (.lit "di.see.") (.seq .noDots (.lit ".see.di-list-")))
      (.alt (.lit "tags") (.alt (.lit "default") (.lit "head"))) }

def seeAclListOrRoles : AclRe :=
  { body := .seq (.lit "role.see.") (.alt (.lit "acl-list")
      (.seq (.alt (.lit "acl-list") (.lit "inherited")) (.lit "-roles"))) }

def updateTags : AclRe :=
  { body := .alt (.seq (.lit "di.update.") (.alt (.lit "tags") (.lit "defaults")))
      (.lit "osf.see.di-list-default-update") }

def createTags : AclRe :=
  { body := .seq (.lit "di.create.") (.alt (.lit "tags") (.lit "default")) }

def directlyTenantRelated : List String :=
  ["User", "Administrator", "Role", "OSF", "Config", "Views_Setup_Attributes_Tenant",
    "Property_List"]

def aclsForFields : List (String × List (String × List AclRe)) := [
  ("OSF", [
    ("creation_admin_id", [only "osf.see.created-by"]),
    ("creation_admin_name", [only "osf.see.created-by"]),
    ("creation_date", [only "osf.see.creation-date"]), ("overlay", [only "osf.see.overlay"]),
    ("user_storage", [only "osf.see.user-storage"]), ("memory", [only "osf.see.memory"]),
    ("number_of_vms", [only "osf.see.vms-info"]), ("number_of_dis", [only "osf.see.dis-info"]),
    ("properties", [only "osf.see.properties"]), ("description", [only "osf.see.description"])]),
  ("Role", [
    ("roles", [seeAclListOrRoles]), ("acls", [only "role.see.acl-list"]),
    ("number_of_acls", [only "role.see.acl-list"]),
    ("description", [only "role.see.description"]),
    ("creation_date", [only "role.see.creation-date"]),
    ("creation_admin_id", [only "role.see.created-by"]),
    ("creation_admin_name", [only "role.see.created-by"])]),
  ("DI", [
    ("creation_admin_id", [only "di.see.created-by"]),
    ("creation_admin_name", [only "di.see.created-by"]),
    ("creation_date", [only "di.see.creation-date"]), ("version", [only "di.see.version"]),
    ("osf_id", [only "di.see.osf"]), ("osf_name", [only "di.see.osf"]),
    ("blocked", [only "di.see.block"]), ("tags", [seeTagsOrDiList]),
    ("properties", [only "di.see.properties"]), ("description", [only "di.see.description"])]),
  ("VM", [
    ("description", [only "vm.see.description"]), ("user_id", [only "vm.see.user"]),
    ("user_name", [only "vm.see.user"]), ("osf_id", [only "vm.see.osf"]),
    ("osf_name", [only "vm.see.osf"]), ("di_tag", [only "vm.see.di-tag"]),
    ("blocked", [seeVmOrVmList "block"]), ("expiration_soft", [seeVmOrVmList "expiration"]),
    ("expiration_hard", [seeVmOrVmList "expiration"]),
    ("time_until_expiration_soft", [seeVmOrVmList "expiration"]),
    ("time_until_expiration_hard", [seeVmOrVmList "expiration"]),
    ("state", [seeVmOrVmList "state"]), ("host_id", [only "vm.see.host"]),
    ("host_name", [only "vm.see.host"]), ("di_id", [only "vm.see.di"]),
    ("di_name", [only "vm.see.di"]), ("di_version", [only "vm.see.di-version"]),
    ("di_id_in_use", [only "vm.see.di"]), ("di_name_in_use", [only "vm.see.di"]),
    ("di_version_in_use", [only "vm.see.di-version"]),
    ("user_state", [only "vm.see.user-state"]), ("ip", [only "vm.see.ip"]),
    ("ip_in_use", [only "vm.see.ip"]), ("mac", [only "vm.see.mac"]),
    ("next_boot_ip", [only "vm.see.next-boot-ip"]), ("ssh_port", [only "vm.see.port-ssh"]),
    ("vnc_port", [only "vm.see.port-vnc"]), ("serial_port", [only "vm.see.port-serial"]),
    ("creation_admin_id", [only "vm.see.created-by"]),
    ("creation_admin_name", [only "vm.see.created-by"]),
    ("creation_date", [only "vm.see.creation-date"]),
    ("properties", [only "vm.see.properties"])]),
  ("Administrator", [
    ("description", [only "administrator.see.description"]),
    ("roles", [only "administrator.see.roles"]),
    ("language", [only "administrator.see.language"]),
    ("creation_date", [only "administrator.see.creation-date"]),
    ("creation_admin_id", [only "administrator.see.created-by"]),
    ("creation_admin_name", [only "administrator.see.created-by"])]),
  ("User", [
    ("blocked", [only "user.see.block"]), ("creation_admin_id", [only "user.see.created-by"]),
    ("creation_admin_name", [only "user.see.created-by"]),
    ("creation_date", [only "user.see.creation-date"]),
    ("number_of_vms", [only "user.see.vms-info"]),
    ("number_of_vms_connected", [only "user.see.vm-list-state"]),
    ("properties", [only "user.see.properties"]),
    ("description", [only "user.see.description"])]),
  ("Host", [
    ("address", [only "host.see.address"]), ("blocked", [only "host.see.block"]),
    ("state", [only "host.see.state"]), ("creation_admin_id", [only "host.see.created-by"]),
    ("creation_admin_name", [only "host.see.created-by"]),
    ("creation_date", [only "host.see.creation-date"]),
    ("number_of_vms_connected", [only "host.see.vms-info"]),
    ("properties", [only "host.see.properties"]),
    ("description", [only "host.see.description"])]),
  ("Tenant", [
    ("description", [only "tenant.see.description"]), ("block", [only "tenant.see.blocksize"]),
    ("language", [only "tenant.see.language"]), ("blocked", [only "tenant.see.block"]),
    ("creation_date", [only "tenant.see.creation-date"]),
    ("creation_admin_id", [only "tenant.see.created-by"]),
    ("creation_admin_name", [only "tenant.see.created-by"])])]

def aclsForFilters : List (String × List (String × List AclRe)) :=
  aclsForFields

def aclsForOrderCriteria : List (String × List (String × List AclRe)) :=
  aclsForFields

def aclsForArgumentsInUpdate : List (String × List (String × List AclRe)) := [
  ("User", [
    ("password", [only "user.update.password"]), ("blocked", [only "user.update.block"]),
    ("description", [only "user.update.description"]),
    ("__properties_changes_set", [only "user.update.properties"]),
    ("__properties_changes_delete", [only "user.update.properties"])]),
  ("VM", [
    ("name", [only "vm.update.name"]), ("user_id", [only "vm.update.user"]),
    ("osf_id", [only "vm.update.osf"]), ("blocked", [only "vm.update.block"]),
    ("expiration_soft", [only "vm.update.expiration"]),
    ("expiration_hard", [only "vm.update.expiration"]), ("di_tag", [only "vm.update.di-tag"]),
    ("description", [only "vm.update.description"]), ("state", [only "vm.update.state"]),
    ("user_state", [only "vm.update.user-state"]), ("ip", [only "vm.update.ip"]),
    ("__properties_changes__set", [only "vm.update.properties"]),
    ("__properties_changes__delete", [only "vm.update.properties"])]),
  ("Host", [
    ("name", [only "host.update.name"]), ("address", [only "host.update.address"]),
    ("blocked", [only "host.update.block"]), ("description", [only "host.update.description"]),
    ("__properties_changes__set", [only "host.update.properties"]),
    ("__properties_changes__delete", [only "host.update.properties"])]),
  ("OSF", [
    ("name", [only "osf.update.name"]), ("memory", [only "osf.update.memory"]),
    ("user_storage", [only "osf.update.user-storage"]),
    ("description", [only "osf.update.description"]),
    ("__properties_changes__set", [only "osf.update.properties"]),
    ("__properties_changes__delete", [only "osf.update.properties"])]),
  ("DI", [
    ("blocked", [only "di.update.block"]), ("description", [only "di.update.description"]),
    ("auto_publish", [startsWith "di.update.auto-publish"]),
    ("expiration_time_soft", [only "di.update.vms-expiration"]),
    ("expiration_time_hard", [only "di.update.vms-expiration"]),
    ("__properties_changes__set", [only "di.update.properties"]),
    ("__properties_changes__delete", [only "di.update.properties"]),
    ("__tags_changes__create", [updateTags]), ("__tags_changes__delete", [updateTags])]),
  ("Role", [
    ("name", [only "role.update.name"]), ("description", [only "role.update.description"]),
    ("__acls_changes__assign_acls", [only "role.update.assign-acl"]),
    ("__acls_changes__unassign_acls", [only "role.update.assign-acl"]),
    ("__roles_changes__assign_roles", [only "role.update.assign-role"]),
    ("__roles_changes__unassign_roles", [only "role.update.assign-role"])]),
  ("Administrator", [
    ("password", [only "administrator.update.password"]),
    ("description", [only "administrator.update.description"]),
    ("language", [only "administrator.update.language"]),
    ("__roles_changes__assign_roles", [only "administrator.update.assign-role"]),
    ("__roles_changes__unassign_roles", [only "administrator.update.assign-role"])]),
  ("Tenant", [
    ("description", [only "tenant.update.description"]),
    ("block", [only "tenant.update.blocksize"]), ("language", [only "tenant.update.language"]),
    ("blocked", [only "tenant.update.block"])])]

def aclsForArgumentsInCreation : List (String × List (String × List AclRe)) := [
  ("Administrator", [
    ("__roles__", [only "administrator.update.assign-role"])]),
  ("User", [
    ("__properties__", [only "user.create.properties"])]),
  ("VM", [
    ("di_tag", [only "vm.create.di-tag"]), ("__properties__", [only "vm.create.properties"])]),
  ("Host", [
    ("__properties__", [only "host.create.properties"])]),
  ("OSF", [
    ("memory", [only "osf.create.memory"]), ("user_storage", [only "osf.create.user-storage"]),
    ("__properties__", [only "osf.create.properties"])]),
  ("DI", [
    ("__properties__", [only "di.create.properties"]), ("__tags__", [createTags])]),
  ("Property_List", [
    ("__properties_assign__", [startsWith "property.manage."])]),
  ("Roles", [
    ("__acls__", [only "role.update.assign-acl"]),
    ("__roles", [only "role.update.assign-role"])])]

def availableFilters : List (String × List (String × List String)) := [
  ("list", [
    ("default", []),
    ("Log",
      ["id admin_id admin_name tenant_id tenant_name action arguments object_id object_name",
       "time status source ip type_of_action qvd_object superadmin"]),
    ("Config", ["tenant_id key operative_value default_value is_default"]),
    ("VM",
      ["storage id name description user_id user_name osf_id osf_name di_tag blocked",
       "expiration_soft expiration_hard state host host_id host_name di_name di_id",
       "user_state ip next_boot_ip ssh_port vnc_port serial_port tenant tenant_id",
       "tenant_name creation_date creation_admin_id creation_admin_name ip_in_use",
       "di_id_in_use"]),
    ("DI_Tag", ["osf_id di_id name id tenant_id tenant_name"]),
    ("User",
      ["id name description blocked creation_date creation_admin_id creation_admin_name",
       "tenant_id tenant_name"]),
    ("Host",
      ["id name description address blocked frontend backend state vm_id creation_date",
       "creation_admin_id creation_admin_name"]),
    ("DI",
      ["id disk_image description version osf_id osf_name blocked tags properties",
       "creation_date creation_admin_id creation_admin_name state state_ts elapsed_time",
       "auto_publish foreign_id tenant_id expiration_time_soft expiration_time_hard",
       "percentage error_code status_message"]),
    ("OSF",
      ["id name description overlay user_storage memory vm_id di_id tenant_id tenant_name",
       "creation_date creation_admin_id creation_admin_name"]),
    ("ACL", ["id name role_id admin_id description"]),
    ("Tenant",
      ["id name description language block blocked creation_date creation_admin_id",
       "creation_admin_name"]),
    ("Role",
      ["name id description fixed internal tenant_id tenant_name creation_date",
       "creation_admin_id creation_admin_name"]),
    ("Administrator",
      ["name description tenant_id tenant_name id language block creation_date",
       "creation_admin_id creation_admin_name"]),
    ("My_Admin", []),
    ("Views_Setup_Properties_Tenant",
      ["id tenant_id tenant_name qvd_obj_prop_id key visible view_type device_type",
       "qvd_object"]),
    ("Views_Setup_Attributes_Tenant",
      ["id tenant_id tenant_name field visible view_type device_type qvd_object"]),
    ("Views_Setup_Properties_Administrator",
      ["id admin_id qvd_obj_prop_id key visible view_type device_type qvd_object"]),
    ("Views_Setup_Attributes_Administrator",
      ["id admin_id field visible view_type device_type qvd_object"]),
    ("Operative_Acls_In_Role", ["acl_name role_id operative name id description"]),
    ("Operative_Acls_In_Administrator", ["acl_name admin_id operative name id description"]),
    ("Operative_Views_In_Tenant",
      ["tenant_id field visible view_type device_type qvd_object property"]),
    ("Operative_Views_In_Administrator",
      ["tenant_id field visible view_type device_type qvd_object property"]),
    ("QVD_Object_Property_List", ["tenant_id"]),
    ("Property_List", ["tenant_id id key description"]),
    ("Wat_Setups_By_Tenant", [])]),
  ("delete", [
    ("default", ["id tenant_id"]),
    ("Config", ["tenant_id key"]),
    ("Host", ["id"]),
    ("Role", ["id"]),
    ("Tenant", ["id"]),
    ("Views_Setup_Properties_Tenant", ["tenant_id qvd_object"]),
    ("Views_Setup_Attributes_Tenant", ["tenant_id qvd_object"]),
    ("Views_Setup_Properties_Administrator", ["qvd_object"]),
    ("Views_Setup_Attributes_Administrator", ["qvd_object"]),
    ("QVD_Object_Property_List", ["id tenant_id property_id"])]),
  ("update", [
    ("default", ["id tenant_id"]),
    ("My_Admin", []),
    ("My_Tenant", []),
    ("Config", ["key value"]),
    ("Host", ["id"]),
    ("Role", ["id"]),
    ("Tenant", ["id"]),
    ("Wat_Setups_By_Tenant", [])]),
  ("create_or_update", [
    ("Views_Setup_Properties_Tenant", []),
    ("Views_Setup_Attributes_Tenant", []),
    ("Views_Setup_Properties_Administrator", []),
    ("Views_Setup_Attributes_Administrator", [])]),
  ("exec", [
    ("default", ["id tenant_id user_id host_id"])]),
  ("state", [
    ("default", ["id tenant_id"]),
    ("Host", ["id"]),
    ("ACL", ["id"]),
    ("Role", ["id"]),
    ("Tenant", ["id"])])]

def availableFields : List (String × List (String × List String)) := [
  ("list", [
    ("default", []),
    ("Log",
      ["id admin_id admin_name tenant_id tenant_name action arguments object_id object_name",
       "time antiquity status source ip type_of_action qvd_object object_deleted",
       "admin_deleted superadmin"]),
    ("Config", ["tenant_id key operative_value default_value is_default"]),
    ("OSF",
      ["id name description overlay user_storage memory number_of_vms number_of_dis",
       "properties creation_date creation_admin_id creation_admin_name osd_id"]),
    ("Role",
      ["name id description fixed internal acls roles creation_date creation_admin_id",
       "creation_admin_name"]),
    ("DI",
      ["id disk_image description version osf_id osf_name blocked tags properties",
       "creation_date creation_admin_id creation_admin_name state state_ts elapsed_time",
       "auto_publish foreign_id expiration_time_soft expiration_time_hard percentage",
       "error_code status_message"]),
    ("VM",
      ["storage id name description user_id user_name osf_id osf_name di_tag blocked",
       "expiration_soft expiration_hard state host_id host_name di_id user_state ip mac",
       "next_boot_ip ssh_port vnc_port serial_port creation_date creation_admin_id",
       "creation_admin_name di_version di_name di_id properties ip_in_use di_id_in_use",
       "di_name_in_use di_version_in_use time_until_expiration_soft",
       "time_until_expiration_hard"]),
    ("ACL", ["id name description"]),
    ("Administrator",
      ["name description roles id language block creation_date creation_admin_id",
       "creation_admin_name"]),
    ("My_Admin",
      ["admin_id admin_name tenant_id tenant_name admin_language tenant_language acls views",
       "admin_block tenant_block"]),
    ("Tenant",
      ["id name description language block blocked creation_date creation_admin_id",
       "creation_admin_name"]),
    ("User",
      ["id name description blocked creation_date creation_admin_id creation_admin_name",
       "number_of_vms number_of_vms_connected properties"]),
    ("Host",
      ["id name description address blocked frontend backend state creation_date",
       "creation_admin_id creation_admin_name number_of_vms_connected properties"]),
    ("DI_Tag", ["osf_id di_id name id"]),
    ("Views_Setup_Properties_Tenant",
      ["id tenant_id tenant_name qvd_obj_prop_id key visible view_type device_type",
       "qvd_object"]),
    ("Views_Setup_Attributes_Tenant",
      ["id tenant_id tenant_name field visible view_type device_type qvd_object"]),
    ("Operative_Acls_In_Role", ["id name roles operative description"]),
    ("Operative_Acls_In_Administrator", ["id name roles operative description"]),
    ("Operative_Views_In_Tenant",
      ["tenant_id field visible view_type device_type qvd_object property"]),
    ("Views_Setup_Properties_Administrator",
      ["id tenant_id tenant_name admin_id admin_name qvd_obj_prop_id key visible view_type",
       "device_type qvd_object"]),
    ("Views_Setup_Attributes_Administrator",
      ["id tenant_id tenant_name admin_id admin_name field visible view_type device_type",
       "qvd_object"]),
    ("Operative_Views_In_Administrator",
      ["tenant_id field visible view_type device_type qvd_object property"]),
    ("QVD_Object_Property_List", ["id property_id key description"]),
    ("Property_List",
      ["id property_id tenant_id key description in_user in_vm in_host in_osf in_di"]),
    ("Wat_Setups_By_Tenant", ["block language"])]),
  ("state", [
    ("User", ["number_of_vms_connected"]),
    ("VM", ["state user_state"]),
    ("Host", ["number_of_vms_connected"])]),
  ("create", [
    ("default", ["id"]),
    ("Config", ["key tenant_id"])]),
  ("create_or_update", [
    ("default", ["id"]),
    ("Config", ["key tenant_id"])])]

def mandatoryFilters : List (String × List (String × List String)) := [
  ("list", [
    ("default", []),
    ("Config", []),
    ("Operative_Acls_In_Role", ["role_id"]),
    ("Operative_Acls_In_Administrator", []),
    ("Wat_Setups_By_Tenant", [])]),
  ("delete", [
    ("default", ["id"]),
    ("Config", ["key"]),
    ("Views_Setup_Properties_Tenant", []),
    ("Views_Setup_Attributes_Tenant", []),
    ("Views_Setup_Properties_Administrator", []),
    ("Views_Setup_Attributes_Administrator", []),
    ("QVD_Object_Property_List", [])]),
  ("update", [
    ("default", ["id"]),
    ("Config", ["key"]),
    ("My_Admin", []),
    ("My_Tenant", []),
    ("Wat_Setups_By_Tenant", [])]),
  ("exec", [
    ("default", [])]),
  ("state", [
    ("default", ["id"])])]

def availableOrderCriteria : List (String × List String) := [
  ("default", []),
  ("Log",
    ["id admin_id admin_name tenant_id tenant_name action arguments object_id object_name",
     "time antiquity status source ip type_of_action qvd_object object_deleted admin_deleted",
     "superadmin"]),
  ("Config", ["key"]),
  ("OSF",
    ["id name tenant_id tenant_name description overlay user_storage memory tenant_id",
     "tenant_name creation_date creation_admin_id creation_admin_name"]),
  ("Role",
    ["id name tenant_id tenant_name description fixed internal creation_date",
     "creation_admin_id creation_admin_name"]),
  ("DI",
    ["id disk_image tenant_id tenant_name description version osf_id osf_name blocked",
     "creation_date creation_admin_id creation_admin_name"]),
  ("VM",
    ["id name tenant_id tenant_name description user_id user_name osf_id osf_name di_tag",
     "blocked storage expiration_soft expiration_hard state host_id user_state ip ssh_port",
     "vnc_port serial_port creation_date creation_admin_id creation_admin_name"]),
  ("ACL", ["id name description"]),
  ("Administrator",
    ["id name tenant_id tenant_name description language block creation_date",
     "creation_admin_id creation_admin_name"]),
  ("Tenant",
    ["id name description language block blocked creation_date creation_admin_id",
     "creation_admin_name"]),
  ("User",
    ["id name tenant_id tenant_name description blocked creation_date creation_admin_id",
     "creation_admin_name"]),
  ("Host",
    ["id name description address blocked state creation_date creation_admin_id",
     "creation_admin_name number_of_vms_connected properties"]),
  ("DI_Tag", ["osf_id di_id name id"]),
  ("Views_Setup_Properties_Tenant",
    ["qvd_obj_prop_id key visible view_type device_type qvd_object"]),
  ("Views_Setup_Attributes_Tenant",
    ["tenant_id field visible view_type device_type qvd_object"]),
  ("Operative_Acls_In_Role", ["id name roles operative description"]),
  ("Operative_Acls_In_Administrator", ["id name roles operative description"]),
  ("Operative_Views_In_Tenant",
    ["tenant_id field visible view_type device_type qvd_object property"]),
  ("Views_Setup_Properties_Administrator",
    ["id tenant_id tenant_name admin_id admin_name qvd_obj_prop_id key visible view_type",
     "device_type qvd_object"]),
  ("Views_Setup_Attributes_Administrator",
    ["id tenant_id tenant_name admin_id admin_name field visible view_type device_type",
     "qvd_object"]),
  ("Operative_Views_In_Administrator",
    ["tenant_id field visible view_type device_type qvd_object property"]),
  ("QVD_Object_Property_List", ["id key property_id"]),
  ("Property_List", ["id tenant_id key description"])]

def availableNestedQueries : List (String × List (String × List String)) := [
  ("create", [
    ("User", ["__properties__"]),
    ("VM", ["__properties__"]),
    ("Host", ["__properties__"]),
    ("OSF", ["__properties__"]),
    ("DI", ["__properties__ __tags__"]),
    ("Tenant", []),
    ("Role", ["__acls__ __roles__"]),
    ("Administrator", ["__roles__"]),
    ("Views_Setup_Properties_Tenant", []),
    ("Views_Setup_Attributes_Tenant", []),
    ("Views_Setup_Properties_Administrator", []),
    ("Views_Setup_Attributes_Administrator", []),
    ("Operative_Views_In_Tenant", []),
    ("Operative_Views_In_Administrator", []),
    ("Property_List", ["__property_assign__"])]),
  ("update", [
    ("User", ["__properties_changes__set __properties_changes__delete"]),
    ("VM", ["__properties_changes__set __properties_changes__delete"]),
    ("Host", ["__properties_changes__set __properties_changes__delete"]),
    ("OSF", ["__properties_changes__set __properties_changes__delete"]),
    ("DI",
      ["__properties_changes__set __properties_changes__delete __tags_changes__create",
       "__tags_changes__delete"]),
    ("Tenant", []),
    ("Role",
      ["__acls_changes__assign_acls __acls_changes__unassign_acls",
       "__roles_changes__assign_roles __roles_changes__unassign_roles"]),
    ("Administrator", ["__roles_changes__assign_roles __roles_changes__unassign_roles"]),
    ("Views_Setup_Properties_Tenant", []),
    ("Views_Setup_Attributes_Tenant", []),
    ("Views_Setup_Properties_Administrator", []),
    ("Views_Setup_Attributes_Administrator", []),
    ("Operative_Views_In_Tenant", []),
    ("Operative_Views_In_Administrator", []),
    ("Wat_Setups_By_Tenant", [])])]

def availableArguments : List (String × List String) := [
  ("Config", ["value"]),
  ("User", ["name password blocked description"]),
  ("VM", ["name ip blocked expiration_soft expiration_hard storage di_tag description"]),
  ("Host", ["name address blocked description"]),
  ("OSF", ["name memory user_storage overlay description osd_id"]),
  ("DI", ["blocked description auto_publish expiration_time_soft expiration_time_hard"]),
  ("My_Tenant", ["name language block description"]),
  ("Tenant", ["name language block blocked description"]),
  ("Role", ["name description"]),
  ("My_Admin", ["name password language block description"]),
  ("Administrator", ["name password language block description"]),
  ("Views_Setup_Properties_Tenant", ["visible"]),
  ("Views_Setup_Attributes_Tenant", ["visible"]),
  ("Views_Setup_Properties_Administrator", ["visible"]),
  ("Views_Setup_Attributes_Administrator", ["visible"]),
  ("Property_List", ["key description"]),
  ("Wat_Setups_By_Tenant", ["language block"])]

/-- The method behind a nested query. -/
def nestedQueriesToAdmin4 : List (String × List (String × String)) := [
  ("User", [
    ("__properties__", "custom_properties_set"),
    ("__properties_changes__set", "custom_properties_set")]),
  ("VM", [
    ("__properties__", "custom_properties_set"),
    ("__properties_changes__set", "custom_properties_set")]),
  ("Host", [
    ("__properties__", "custom_properties_set"),
    ("__properties_changes__set", "custom_properties_set")]),
  ("OSF", [
    ("__properties__", "custom_properties_set"),
    ("__properties_changes__set", "custom_properties_set")]),
  ("DI", [
    ("__properties__", "custom_properties_set"), ("__tags__", "tags_create"),
    ("__properties_changes__set", "custom_properties_set"),
    ("__tags_changes__create", "tags_create"), ("__tags_changes__delete", "tags_delete")]),
  ("Tenant", []),
  ("Role", [
    ("__acls__", "add_acls_to_role"), ("__roles__", "add_roles_to_role"),
    ("__acls_changes__assign_acls", "add_acls_to_role"),
    ("__acls_changes__unassign_acls", "del_acls_to_role"),
    ("__roles_changes__assign_roles", "add_roles_to_role"),
    ("__roles_changes__unassign_roles", "del_roles_to_role")]),
  ("Administrator", [
    ("__roles__", "add_roles_to_admin"),
    ("__roles_changes__assign_roles", "add_roles_to_admin"),
    ("__roles_changes__unassign_roles", "del_roles_to_admin")]),
  ("Views_Setup_Properties_Tenant", []),
  ("Views_Setup_Attributes_Tenant", []),
  ("Operative_Views_In_Tenant", []),
  ("Views_Setup_Properties_Administrator", []),
  ("Views_Setup_Attributes_Administrator", []),
  ("Operative_Views_In_Administrator", []),
  ("Property_List", [("__property_assign__", "assign_property_to_objects")])]

def defaultOrderCriteria : List (String × List (String × List String)) := [
  ("list", [
    ("default", []),
    ("Views_Setup_Properties_Tenant", ["key"]),
    ("Views_Setup_Attributes_Tenant", ["field"]),
    ("Views_Setup_Properties_Administrator", ["key"]),
    ("Views_Setup_Attributes_Administrator", ["field"]),
    ("Operative_Views_In_Tenant", ["field"]),
    ("Operative_Views_In_Administrator", ["field"]),
    ("Config", ["key"])])]

def mandatoryArguments : List (String × List String) := [
  ("Config", ["tenant_id key value"]),
  ("User", ["tenant_id name password blocked"]),
  ("VM", ["name user_id ip osf_id di_tag user_state blocked"]),
  ("Host", ["name address frontend backend blocked"]),
  ("OSF", ["tenant_id name memory overlay user_storage"]),
  ("DI", ["version disk_image osf_id blocked"]),
  ("Tenant", ["name language block"]),
  ("Role", ["tenant_id name fixed internal"]),
  ("Administrator", ["tenant_id name password language block"]),
  ("Views_Setup_Properties_Tenant", ["qvd_obj_prop_id visible view_type device_type"]),
  ("Views_Setup_Attributes_Tenant",
    ["tenant_id field visible view_type device_type qvd_object"]),
  ("Views_Setup_Properties_Administrator", ["qvd_obj_prop_id visible view_type device_type"]),
  ("Views_Setup_Attributes_Administrator", ["field visible view_type device_type qvd_object"]),
  ("QVD_Object_Property_List", ["property_id"]),
  ("Property_List", ["tenant_id key"])]

/-- The default values of arguments; a function of the installation computes the others. -/
def defaultArgumentValues : List (String × List (String × Option String)) := [
  ("User", [("blocked", some "false")]),
  ("VM", [
    ("di_tag", some "default"), ("blocked", some "false"),
    ("user_state", some "disconnected"), ("state", some "stopped"), ("ip", none)]),
  ("Host", [
    ("backend", some "true"), ("frontend", some "true"), ("blocked", some "false"),
    ("state", some "stopped")]),
  ("OSF", [("memory", none), ("overlay", none), ("user_storage", some "0")]),
  ("DI", [("blocked", some "false"), ("version", none)]),
  ("Role", [("fixed", some "false"), ("internal", some "false")]),
  ("Tenant", [("language", some "auto"), ("block", some "10"), ("blocked", some "0")]),
  ("Administrator", [("language", some "auto"), ("block", some "10")]),
  ("Views_Setup_Properties_Tenant", [("visible", some "0")]),
  ("Views_Setup_Attributes_Tenant", [("visible", some "0")]),
  ("Views_Setup_Properties_Administrator", [("visible", some "0")]),
  ("Views_Setup_Attributes_Administrator", [("visible", some "0")])]

/-- The keys whose values are changed on their way to the database. -/
def valuesNormalizator : List (String × List String) := [
  ("User", ["name password"]),
  ("Administrator", ["name password"]),
  ("My_Admin", ["password"]),
  ("Tenant", ["name"])]

def filtersToDbixFormat : List (String × List (String × String)) := [
  ("Log", [
    ("id", "me.id"), ("admin_id", "me.administrator_id"),
    ("admin_name", "me.administrator_name"), ("tenant_id", "me.tenant_id"),
    ("tenant_name", "me.tenant_name"), ("action", "me.action"), ("arguments", "me.arguments"),
    ("object_id", "me.object_id"), ("object_name", "me.object_name"), ("time", "me.time"),
    ("status", "me.status"), ("source", "me.source"), ("ip", "me.ip"),
    ("type_of_action", "me.type_of_action"), ("qvd_object", "me.qvd_object"),
    ("superadmin", "me.superadmin")]),
  ("Config", [
    ("key", "me.key"), ("tenant_id", "me.tenant_id"), ("value", "me.value"),
    ("operative_value", "me.operative_value"), ("default_value", "me.default_value"),
    ("is_default", "me.is_default")]),
  ("ACL", [
    ("id", "me.id"), ("name", "me.name"), ("role_id", "role.id"), ("admin_id", "admin.id"),
    ("description", "me.description")]),
  ("DI_Tag", [
    ("osf_id", "di.osf_id"), ("di_id", "me.di_id"), ("name", "me.tag"),
    ("tenant_id", "tenant.id"), ("tenant_name", "tenant.name"), ("id", "me.id")]),
  ("My_Admin", [
    ("id", "me.id"), ("name", "me.name"), ("language", "wat_setups.language"),
    ("block", "wat_setups.block"), ("password", "me.password"),
    ("description", "me.description")]),
  ("Administrator", [
    ("name", "me.name"), ("language", "wat_setups.language"), ("block", "wat_setups.block"),
    ("password", "me.password"), ("tenant_id", "me.tenant_id"), ("tenant_name", "tenant.name"),
    ("roles", "me.get_roles_info"), ("role_id", "role.id"), ("acl_id", "acl.id"),
    ("role_name", "role.name"), ("acl_name", "acl.name"), ("id", "me.id"),
    ("description", "me.description"), ("creation_date", "creation_log_entry.time"),
    ("creation_admin_id", "creation_log_entry.administrator_id"),
    ("creation_admin_name", "creation_log_entry.administrator_name")]),
  ("OSF", [
    ("id", "me.id"), ("name", "me.name"), ("overlay", "me.use_overlay"),
    ("user_storage", "me.user_storage_size"), ("memory", "me.memory"), ("vm_id", "vms.id"),
    ("di_id", "dis.id"), ("description", "me.description"), ("osd_id", "me.osd_id"),
    ("tenant_id", "me.tenant_id"), ("tenant_name", "tenant.name"),
    ("number_of_vms", "view.number_of_vms"), ("number_of_dis", "view.number_of_dis"),
    ("properties", "view.properties"), ("creation_date", "creation_log_entry.time"),
    ("creation_admin_id", "creation_log_entry.administrator_id"),
    ("creation_admin_name", "creation_log_entry.administrator_name")]),
  ("Host", [
    ("id", "me.id"), ("name", "me.name"), ("description", "me.description"),
    ("address", "me.address"), ("blocked", "runtime.blocked"), ("frontend", "me.frontend"),
    ("backend", "me.backend"), ("state", "runtime.state"), ("vm_id", "vms.vm_id"),
    ("creation_date", "creation_log_entry.time"),
    ("creation_admin_id", "creation_log_entry.administrator_id"),
    ("creation_admin_name", "creation_log_entry.administrator_name"),
    ("number_of_vms_connected", "view.number_of_vms_connected"),
    ("properties", "view.properties")]),
  ("DI", [
    ("id", "me.id"), ("disk_image", "me.path"), ("description", "me.description"),
    ("version", "me.version"), ("blocked", "me.blocked"), ("osf_id", "me.osf_id"),
    ("osf_name", "osf.name"), ("tenant_id", "osf.tenant_id"), ("blocked", "me.blocked"),
    ("tags", "view.tags"), ("tenant_name", "tenant.name"), ("properties", "view.properties"),
    ("creation_date", "creation_log_entry.time"),
    ("creation_admin_id", "creation_log_entry.administrator_id"),
    ("creation_admin_name", "creation_log_entry.administrator_name"),
    ("state", "di_runtime.state"), ("state_ts", "di_runtime.state_ts"),
    ("elapsed_time", "di_runtime.elapsed_time"), ("auto_publish", "di_runtime.auto_publish"),
    ("foreign_id", "di_runtime.foreign_id"),
    ("expiration_time_soft", "di_runtime.expiration_time_soft"),
    ("expiration_time_hard", "di_runtime.expiration_time_hard"),
    ("percentage", "di_runtime.percentage"), ("error_code", "di_runtime.error_code"),
    ("status_message", "di_runtime.status_message")]),
  ("User", [
    ("id", "me.id"), ("name", "me.login"), ("description", "me.description"),
    ("password", "me.password"), ("blocked", "me.blocked"),
    ("number_of_vms", "view.number_of_vms"),
    ("number_of_vms_connected", "view.number_of_vms_connected"), ("tenant_id", "me.tenant_id"),
    ("tenant_name", "tenant.name"), ("properties", "view.properties"),
    ("creation_date", "creation_log_entry.time"),
    ("creation_admin_id", "creation_log_entry.administrator_id"),
    ("creation_admin_name", "creation_log_entry.administrator_name")]),
  ("VM", [
    ("storage", "me.storage"), ("id", "me.id"), ("name", "me.name"),
    ("description", "me.description"), ("user_id", "me.user_id"), ("user_name", "user.login"),
    ("osf_id", "me.osf_id"), ("osf_name", "osf.name"), ("di_tag", "me.di_tag"),
    ("blocked", "vm_runtime.blocked"), ("expiration_soft", "vm_runtime.vm_expiration_soft"),
    ("expiration_hard", "vm_runtime.vm_expiration_hard"),
    ("time_until_expiration_soft", "me.remaining_time_until_expiration_soft"),
    ("time_until_expiration_hard", "me.remaining_time_until_expiration_hard"),
    ("state", "vm_runtime.vm_state"), ("host_id", "vm_runtime.host_id"),
    ("host_name", "me.host_name"), ("di_id", "di.id"), ("di_version", "di.version"),
    ("di_name", "di.path"), ("user_state", "vm_runtime.user_state"), ("ip", "me.ip"),
    ("mac", "me.vm_mac"), ("next_boot_ip", "vm_runtime.vm_address"),
    ("ssh_port", "vm_runtime.vm_ssh_port"), ("vnc_port", "vm_runtime.vm_vnc_port"),
    ("serial_port", "vm_runtime.vm_serial_port"), ("tenant_id", "user.tenant_id"),
    ("tenant_name", "tenant.name"), ("ip_in_use", "vm_runtime.vm_address"),
    ("di_id_in_use", "vm_runtime.current_di_id"),
    ("di_name_in_use", "vm_runtime.current_di_name"),
    ("di_version_in_use", "vm_runtime.current_di_version"), ("properties", "view.properties"),
    ("creation_date", "creation_log_entry.time"),
    ("creation_admin_id", "creation_log_entry.administrator_id"),
    ("creation_admin_name", "creation_log_entry.administrator_name")]),
  ("Role", [
    ("name", "me.name"), ("description", "me.description"), ("fixed", "me.fixed"),
    ("internal", "me.internal"), ("id", "me.id"), ("tenant_id", "me.tenant_id"),
    ("tenant_name", "tenant.name"), ("acls", "view.acls"), ("roles", "view.roles"),
    ("creation_date", "creation_log_entry.time"),
    ("creation_admin_id", "creation_log_entry.administrator_id"),
    ("creation_admin_name", "creation_log_entry.administrator_name")]),
  ("Tenant", [
    ("name", "me.name"), ("id", "me.id"), ("description", "me.description"),
    ("blocked", "me.blocked"), ("language", "wat_setups.language"),
    ("block", "wat_setups.block"), ("creation_date", "creation_log_entry.time"),
    ("creation_admin_id", "creation_log_entry.administrator_id"),
    ("creation_admin_name", "creation_log_entry.administrator_name")]),
  ("My_Tenant", [
    ("name", "me.name"), ("id", "me.id"), ("description", "me.description"),
    ("language", "wat_setups.language"), ("block", "wat_setups.block")]),
  ("Views_Setup_Properties_Tenant", [
    ("id", "me.id"), ("qvd_obj_prop_id", "me.qvd_obj_prop_id"), ("visible", "me.visible"),
    ("view_type", "me.view_type"), ("device_type", "me.device_type"),
    ("qvd_object", "qvd_obj_prop.qvd_object")]),
  ("Views_Setup_Attributes_Tenant", [
    ("id", "me.id"), ("tenant_id", "me.tenant_id"), ("field", "me.field"),
    ("tenant_name", "tenant.name"), ("visible", "me.visible"), ("view_type", "me.view_type"),
    ("device_type", "me.device_type"), ("qvd_object", "me.qvd_object")]),
  ("Operative_Acls_In_Role", [
    ("acl_name", "me.acl_name"), ("id", "me.acl_id"), ("name", "me.acl_name"),
    ("role_id", "me.role_id"), ("roles", "me.roles"), ("operative", "me.operative"),
    ("description", "me.acl_description")]),
  ("Operative_Acls_In_Administrator", [
    ("acl_name", "me.acl_name"), ("name", "me.acl_name"), ("id", "me.acl_id"),
    ("admin_id", "me.admin_id"), ("roles", "me.roles"), ("operative", "me.operative"),
    ("description", "me.acl_description")]),
  ("Operative_Views_In_Tenant", [
    ("tenant_id", "me.tenant_id"), ("field", "me.field"), ("visible", "me.visible"),
    ("view_type", "me.view_type"), ("device_type", "me.device_type"),
    ("qvd_object", "me.qvd_object"), ("property", "me.property")]),
  ("Views_Setup_Properties_Administrator", [
    ("id", "me.id"), ("qvd_obj_prop_id", "me.qvd_obj_prop_id"),
    ("admin_id", "me.administrator_id"), ("admin_name", "administrator.name"),
    ("visible", "me.visible"), ("view_type", "me.view_type"),
    ("device_type", "me.device_type"), ("qvd_object", "qvd_obj_prop.qvd_object")]),
  ("Views_Setup_Attributes_Administrator", [
    ("id", "me.id"), ("tenant_id", "administrator.tenant_id"),
    ("admin_id", "me.administrator_id"), ("field", "me.field"),
    ("admin_name", "administrator.name"), ("visible", "me.visible"),
    ("view_type", "me.view_type"), ("device_type", "me.device_type"),
    ("qvd_object", "me.qvd_object"), ("property", "me.property")]),
  ("Operative_Views_In_Administrator", [
    ("tenant_id", "me.tenant_id"), ("field", "me.field"), ("visible", "me.visible"),
    ("view_type", "me.view_type"), ("device_type", "me.device_type"),
    ("qvd_object", "me.qvd_object"), ("property", "me.property")]),
  ("QVD_Object_Property_List", [
    ("id", "me.id"), ("property_id", "me.property_id"), ("qvd_object", "me.qvd_object"),
    ("tenant_id", "properties_list.tenant_id"), ("tenant_name", "me.tenant_name"),
    ("description", "me.description"), ("key", "properties_list.key")]),
  ("Property_List", [
    ("id", "me.id"), ("property_id", "me.property_id"), ("tenant_id", "me.tenant_id"),
    ("tenant_name", "me.tenant_name"), ("key", "me.key"), ("description", "me.description"),
    ("in_user", "me.in_user"), ("in_vm", "me.in_vm"), ("in_host", "me.in_host"),
    ("in_osf", "me.in_osf"), ("in_di", "me.in_di")]),
  ("Wat_Setups_By_Tenant", [
    ("id", "me.id"), ("block", "me.block"), ("language", "me.language"),
    ("tenant_id", "me.tenant_id")])]

end Qvd.RestTables
