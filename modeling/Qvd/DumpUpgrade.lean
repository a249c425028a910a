import Mathlib.Data.List.Dedup
import Qvd.DatabaseDump
import Qvd.KeyedRows

/-!
The upgrade of a dump: `qvd_upgrade_db_data` with its steps for each version, and
`populate_from_data`, which loads the result into the tables of the current schema. What of the
data is kept, and whether the new tables are as the current model has them.
-/
namespace Qvd.DumpUpgrade

open LineText DatabaseDump KeyedRows

/-! ### The tables -/

section Sources

/-- The primary key of a source, and whether it is an id with a sequence. -/
structure Source where
  primaryKey : List Text
  autoIncrement : Bool

def id : Text := "id".toList

/-- A source with an id that is taken from a sequence. -/
def numbered (name : String) : Text × Source := (name.toList, ⟨[id], true⟩)

def keyedBy (name : String) (columns : List String) : Text × Source :=
  (name.toList, ⟨columns.map String.toList, false⟩)

/-- The sources of the current schema that are tables. -/
def sources : List (Text × Source) :=
  [numbered "ACL", numbered "ACL_Role_Relation", numbered "Administrator",
   keyedBy "Config" ["tenant_id", "key"], numbered "DI",
   keyedBy "DI_Property" ["di_id", "property_id"], keyedBy "DI_Runtime" ["di_id"],
   numbered "DI_Tag", numbered "Desktop", numbered "Desktop_Setting",
   numbered "Desktop_Setting_Collection", numbered "Host", keyedBy "Host_Cmd" ["name"],
   keyedBy "Host_Counter" ["host_id"], keyedBy "Host_Property" ["host_id", "property_id"],
   keyedBy "Host_Runtime" ["host_id"], keyedBy "Host_State" ["name"], numbered "Log",
   numbered "OSF", keyedBy "OSF_Property" ["osf_id", "property_id"], numbered "Property_List",
   numbered "QVD_Object_Property_List", numbered "Role", numbered "Role_Administrator_Relation",
   numbered "Role_Role_Relation", keyedBy "SSL_Config" ["key"], keyedBy "Session" ["sid"],
   keyedBy "Session_UP" ["sid"], numbered "Tenant", numbered "User",
   numbered "User_Auth_Parameters", keyedBy "User_Cmd" ["name"], keyedBy "User_Connection" ["id"],
   keyedBy "User_Property" ["user_id", "property_id"], keyedBy "User_State" ["name"],
   keyedBy "User_Token" ["token"], numbered "VM", keyedBy "VM_Cmd" ["name"],
   keyedBy "VM_Counter" ["vm_id"], keyedBy "VM_Property" ["vm_id", "property_id"],
   keyedBy "VM_Runtime" ["vm_id"], keyedBy "VM_State" ["name"], keyedBy "Version" ["component"],
   numbered "Views_Setup_Attributes_Administrator", numbered "Views_Setup_Attributes_Tenant",
   numbered "Views_Setup_Properties_Administrator", numbered "Views_Setup_Properties_Tenant",
   numbered "Wat_Log", numbered "Wat_Setups_By_Administrator", numbered "Wat_Setups_By_Tenant",
   numbered "Workspace", numbered "Workspace_Setting", numbered "Workspace_Setting_Collection"]

def primaryKey (schema : Text) : List Text :=
  ((sources.lookup schema).map (·.primaryKey)).getD []

end Sources

/-! ### Loading -/

section Loading

def digits (n : ℕ) : Text := Nat.toDigits 10 n

/-- The key of a tuple, if it has all columns of the key. -/
def keyOf (columns : List Text) (tuple : Tuple) : Option (List Text) := columns.mapM tuple

/-- A table: its rows, and the next number of its sequence. -/
structure Loaded where
  rows : List Tuple
  next : ℕ

/-- `find_or_create`; `none` is a death. -/
def findOrCreate (source : Source) (t : Loaded) (tuple : Tuple) : Option Loaded :=
  match keyOf source.primaryKey tuple with
  | some _ => some ⟨insertNew (keyOf source.primaryKey) t.rows tuple, t.next⟩
  | none =>
    let row := Function.update tuple id (some (digits t.next))
    if source.autoIncrement ∧ keyOf source.primaryKey row ∉ t.rows.map (keyOf source.primaryKey) then
      some ⟨t.rows ++ [row], t.next + 1⟩
    else none

abbrev Database := Text → Loaded

def emptyTables : Database := fun _ => ⟨[], 1⟩

/-- One tuple; there is no result set for an unknown name. -/
def loadTuple (db : Database) (schema : Text) (tuple : Tuple) : Option Database := do
  let source ← sources.lookup schema
  let t ← findOrCreate source (db schema) tuple
  return Function.update db schema t

def populateFromData (data : Data) : Option Database :=
  data.foldlM (fun db entry => entry.2.foldlM (fun db tuple => loadTuple db entry.1 tuple) db)
    emptyTables

end Loading

/-! ### Upgrading -/

section Steps

variable (order : HashOrder)

def kbLayout : Text := "kb_layout".toList

def parameter : Text := "parameter".toList

/-- Whether a tuple is a setting kb_layout. -/
def isLayout (tuple : Tuple) : Bool := tuple parameter = some kbLayout

/-- The owner of a setting. -/
def ownerOf (owner : Text) (tuple : Tuple) : Text := (tuple owner).getD []

def see (flags : List (Text × ℤ)) (key : Text) : List (Text × ℤ) :=
  if (flags.lookup key).isNone then flags ++ [(key, 1)] else flags

/-- What `%ws` and `%ds` note of a tuple: 1 for a new owner, -1 for one with kb_layout. -/
def note (owner : Text) (flags : List (Text × ℤ)) (tuple : Tuple) : List (Text × ℤ) :=
  let key := ownerOf owner tuple
  let flags := see flags key
  if isLayout tuple then flags.map fun entry => if entry.1 = key then (key, -1) else entry
  else flags

/-- A hash by its pairs. -/
def hash (pairs : List (Text × Option Text)) : Tuple := fun column => (pairs.lookup column).join

def newSetting (owner key : Text) : Tuple :=
  hash [(owner, some key), (parameter, some kbLayout), ("value".toList, some "auto".toList)]

/-- The flags and the new settings after the sections of a schema. -/
def newSettings (schema owner : Text) (data : Data) : List (Text × ℤ) × List Tuple :=
  (data.filter (·.1 = schema)).foldl (fun reached entry =>
    let flags := entry.2.foldl (note owner) reached.1
    (flags, reached.2 ++
      ((order.keys flags).filter (·.2 = 1)).map fun entry => newSetting owner entry.1)) ([], [])

def workspaceSetting : Text := "Workspace_Setting".toList

def workspaceId : Text := "workspace_id".toList

def desktopSetting : Text := "Desktop_Setting".toList

def desktopId : Text := "desktop_id".toList

/-- `migrate_up_settings_from_411_to_41x_42`. The new settings are one array, which stands before
every section of its schema. -/
def migrateUpSettings (data : Data) : Data :=
  data.flatMap fun entry =>
    (if entry.1 = workspaceSetting then
      [(workspaceSetting, (newSettings order workspaceSetting workspaceId data).2)]
    else []) ++
    (if entry.1 = desktopSetting then
      [(desktopSetting, (newSettings order desktopSetting desktopId data).2)]
    else []) ++ [entry]

def di : Text := "DI".toList

def diRuntime : Text := "DI_Runtime".toList

def diId : Text := "di_id".toList

def newRuntime (tuple : Tuple) : Tuple :=
  hash [(diId, tuple id), ("state".toList, some "published".toList),
    ("state_ts".toList, some ['0'])]

/-- `migrate_dis_from_40_to_41`, with one array of runtimes in the same way. -/
def migrateDis (data : Data) : Data :=
  let runtimes := ((data.filter (·.1 = di)).flatMap (·.2)).map newRuntime
  data.flatMap fun entry => (if entry.1 = di then [(diRuntime, runtimes)] else []) ++ [entry]

/-- `%schema_to_enum`. -/
def schemaToEnum : List (Text × Text) :=
  [("Host_Property".toList, "host".toList), ("VM_Property".toList, "vm".toList),
   ("User_Property".toList, "user".toList)]

def objectId (enum : Text) : Text := enum ++ "_id".toList

/-- A property as `@properties` holds it. -/
structure Property where
  key : Option Text
  value : Option Text
  enum : Text
  objId : Option Text

/-- The properties in the order of the data. -/
def properties (data : Data) : List Property :=
  data.flatMap fun entry =>
    match schemaToEnum.lookup entry.1 with
    | some enum => entry.2.map fun tuple =>
        ⟨tuple "key".toList, tuple "value".toList, enum, tuple (objectId enum)⟩
    | none => []

/-- `%property_ids`: the keys are numbered as they come. -/
def propertyIds (properties : List Property) : List (Text × ℕ) :=
  properties.foldl (fun ids property =>
    let key := property.key.getD []
    if (ids.lookup key).isNone then ids ++ [(key, ids.length + 1)] else ids) []

/-- `migrate_properties_from_36_to_40`. -/
def migrateProperties (data : Data) : Data :=
  let properties := properties data
  let ids := propertyIds properties
  let propertyId (property : Property) : Option Text :=
    (ids.lookup (property.key.getD [])).map digits
  data.filter (fun entry => (schemaToEnum.lookup entry.1).isNone) ++
    [("Property_List".toList, (order.keys ids).map fun entry =>
        hash [(id, some (digits entry.2)), ("key".toList, some entry.1),
          ("tenant_id".toList, some ['1'])]),
     ("QVD_Object_Property_List".toList, properties.mapIdx fun index property =>
        hash [(id, some (digits (index + 1))), ("property_id".toList, propertyId property),
          ("qvd_object".toList, some property.enum)])] ++
    (order.keys schemaToEnum).map fun entry =>
      (entry.1, (properties.zipIdx.filter (·.1.enum = entry.2)).map fun numbered =>
        hash [(objectId entry.2, numbered.1.objId), ("value".toList, numbered.1.value),
          ("property_id".toList, some (digits (numbered.2 + 1)))])

end Steps

section Versions

inductive Version
  | common | v36 | v40 | v41 | latest
deriving DecidableEq

def Version.all : List Version := [.common, .v36, .v40, .v41, .latest]

/-- The keys of `$UPGRADE_SCHEMA`. -/
def Version.name : Version → String
  | .common => "common"
  | .v36 => "3.6"
  | .v40 => "4.0"
  | .v41 => "4.1"
  | .latest => "latest"

/-- `qvd_version_upgrade_available`. -/
def qvdVersionUpgradeAvailable (version : String) : Bool :=
  Version.all.any (·.name = version)

structure Changes where
  deleteSchemas : List Text
  addColumn : List (Text × List (Text × Text))
  additionalActions : List (HashOrder → Data → Data)

def upgradeSchema : Version → Changes
  | .common => ⟨["Version".toList], [], []⟩
  | .v36 =>
    { deleteSchemas := ["Host_Cmd", "Host_State", "User_Cmd", "User_State", "VM_Cmd",
        "VM_State"].map String.toList
      addColumn := [("User".toList, [("tenant_id".toList, ['1'])]),
        ("Config".toList, [("tenant_id".toList, "-1".toList)]),
        ("OSF".toList, [("tenant_id".toList, ['1'])])]
      additionalActions := [migrateProperties] }
  | .v40 => ⟨[], [], [fun _ => migrateDis]⟩
  | .v41 => ⟨[], [], [migrateUpSettings]⟩
  | .latest => ⟨[], [], []⟩

/-- The schemas that are left out. -/
def deleted (version : Version) : List Text :=
  (upgradeSchema version).deleteSchemas ++ (upgradeSchema .common).deleteSchemas

def newColumns (version : Version) (schema : Text) : List (Text × Text) :=
  ((upgradeSchema version).addColumn.lookup schema).getD []

def addColumns (columns : List (Text × Text)) (tuple : Tuple) : Tuple :=
  columns.foldl (fun tuple column => Function.update tuple column.1 (some column.2)) tuple

/-- The data without the deleted schemas and with the new columns. -/
def updated (version : Version) (data : Data) : Data :=
  (data.filter (·.1 ∉ deleted version)).map fun entry =>
    (entry.1, entry.2.map (addColumns (newColumns version entry.1)))

/-- `qvd_upgrade_db_data`. -/
def qvdUpgradeDbData (order : HashOrder) (data : Data) (version : Version) : Data :=
  (upgradeSchema version).additionalActions.foldl (fun data action => action order data)
    (updated version data)

end Versions

/-! ### What an upgrade should do -/

section Purpose

/-- The schemas whose rows a version has in another form. -/
def restructured : Version → List Text
  | .v36 => schemaToEnum.map (·.1)
  | _ => []

def Kept (version : Version) (schema : Text) : Prop :=
  schema ∉ deleted version ∧ schema ∉ restructured version

/-- The tables of settings with the column of their owners. -/
def settingTables : List (Text × Text) :=
  [(workspaceSetting, workspaceId), (desktopSetting, desktopId)]

/-- The key of a row in the current schema. -/
def newKey (version : Version) (schema : Text) (tuple : Tuple) : Option (List Text) :=
  keyOf (primaryKey schema) (addColumns (newColumns version schema) tuple)

/-- A dump of a database of a version. Each table is one section; rows have their keys, which are
different; the columns that a version adds are new, and a 4.0 database has no runtimes of images. -/
structure Dump (version : Version) where
  data : Data
  schemas_nodup : (data.map (·.1)).Nodup
  known : ∀ entry ∈ data, (sources.lookup entry.1).isSome
  keyed : ∀ entry ∈ data, Kept version entry.1 →
    ∀ tuple ∈ entry.2, (newKey version entry.1 tuple).isSome
  distinct : ∀ entry ∈ data, Kept version entry.1 →
    (entry.2.map (newKey version entry.1)).Nodup
  fresh : ∀ entry ∈ data, ∀ column ∈ newColumns version entry.1, ∀ tuple ∈ entry.2,
    tuple column.1 = none
  settings : ∀ table ∈ settingTables, ∀ entry ∈ data, entry.1 = table.1 →
    (∀ tuple ∈ entry.2, (tuple table.2).isSome ∧ (tuple parameter).isSome) ∧
      (entry.2.map fun tuple => (tuple table.2, tuple parameter)).Nodup
  objects : version = .v36 → ∀ schema ∈ schemaToEnum, ∀ entry ∈ data, entry.1 = schema.1 →
    ∀ tuple ∈ entry.2, (tuple (objectId schema.2)).isSome
  runtimes : version = .v40 → ∀ entry ∈ data, entry.1 ≠ diRuntime

/-- The rows of a schema. -/
def tuplesOf (schema : Text) (data : Data) : List Tuple :=
  (data.filter (·.1 = schema)).flatMap (·.2)

/-- Every row of the dump is there with its values. -/
def Keeps {version : Version} (dump : Dump version) (db : Database) : Prop :=
  ∀ entry ∈ dump.data, Kept version entry.1 → ∀ tuple ∈ entry.2,
    ∃ row ∈ (db entry.1).rows, ∀ column value, tuple column = some value →
      row column = some value

/-- The tables are as the current model has them. -/
structure Current (db : Database) : Prop where
  runtimes : ∀ image ∈ (db di).rows,
    (db diRuntime).rows.countP (fun row => row diId = image id) = 1
  layouts : ∀ table ∈ settingTables, ∀ setting ∈ (db table.1).rows,
    (db table.1).rows.countP (fun row => row table.2 = setting table.2 && isLayout row) = 1

/-- The data of the dump is loaded, kept, and brought to the current model. -/
def Upgraded (order : HashOrder) {version : Version} (dump : Dump version) : Prop :=
  ∃ db, populateFromData (qvdUpgradeDbData order dump.data version) = some db ∧
    Keeps dump db ∧ Current db

/-- The owners of settings without kb_layout. -/
def lacking (owner : Text) (tuples : List Tuple) : List Text :=
  (tuples.map (ownerOf owner)).dedup.filter fun key =>
    tuples.all fun tuple => !(tuple owner = some key && isLayout tuple)

/-- No setting has a number that a new one takes. -/
def FreeIds (owner : Text) (tuples : List Tuple) : Prop :=
  ∀ tuple ∈ tuples, ∀ n, 1 ≤ n → n ≤ (lacking owner tuples).length → tuple id ≠ some (digits n)

/-- Every owner of settings has kb_layout. -/
def HasLayouts (owner : Text) (tuples : List Tuple) : Prop :=
  ∀ tuple ∈ tuples, ∃ other ∈ tuples, other owner = tuple owner ∧ isLayout other = true

/-- Every image has a runtime. -/
def HasRuntimes (data : Data) : Prop :=
  ∀ image ∈ tuplesOf di data, ∃ runtime ∈ tuplesOf diRuntime data, runtime diId = image id

/-- When an upgrade does what it should: each version leaves to the dump what its own steps do not
bring about. -/
def Clean {version : Version} (dump : Dump version) : Prop :=
  (version ≠ .v40 → HasRuntimes dump.data) ∧
    ∀ table ∈ settingTables,
      if version = .v41 then FreeIds table.2 (tuplesOf table.1 dump.data)
      else HasLayouts table.2 (tuplesOf table.1 dump.data)

end Purpose

/-! ### What is loaded -/

section Tables

variable {schema : Text} {source : Source}

/-- The tuples of one schema, loaded into its table. -/
def loadTable (schema : Text) (t : Loaded) (tuples : List Tuple) : Option Loaded :=
  tuples.foldlM (fun t tuple => (sources.lookup schema).bind fun source =>
    findOrCreate source t tuple) t

theorem loadTable_append (t : Loaded) (front back : List Tuple) :
    loadTable schema t (front ++ back) =
      (loadTable schema t front).bind fun t => loadTable schema t back :=
  List.foldlM_append

theorem loadTable_cons (hsource : sources.lookup schema = some source) (t : Loaded)
    (tuple : Tuple) (tuples : List Tuple) : loadTable schema t (tuple :: tuples) =
      (findOrCreate source t tuple).bind fun t => loadTable schema t tuples := by
  unfold loadTable
  rw [List.foldlM_cons, hsource]
  rfl

theorem foldlM_loadTuple (db : Database) (tuples : List Tuple) :
    tuples.foldlM (fun db tuple => loadTuple db schema tuple) db =
      (loadTable schema (db schema) tuples).map (Function.update db schema) := by
  induction tuples generalizing db with
  | nil => exact congrArg some (Function.update_eq_self schema db).symm
  | cons tuple tuples ih =>
    have hfirst : loadTuple db schema tuple = ((sources.lookup schema).bind fun source =>
        findOrCreate source (db schema) tuple).map (Function.update db schema) := by
      unfold loadTuple
      cases sources.lookup schema with
      | none => rfl
      | some source =>
        cases hfound : findOrCreate source (db schema) tuple with
        | none => simp [hfound]
        | some t => simp [hfound]
    rw [List.foldlM_cons, hfirst]
    unfold loadTable
    rw [List.foldlM_cons]
    cases (sources.lookup schema).bind fun source => findOrCreate source (db schema) tuple with
    | none => rfl
    | some t =>
      refine (ih (Function.update db schema t)).trans ?_
      rw [Function.update_self]
      refine congrArg (Option.map · _) (funext fun t' => ?_)
      exact Function.update_idem t t' db

theorem tuplesOf_cons (entry : Text × List Tuple) (data : Data) :
    tuplesOf schema (entry :: data) =
      (if entry.1 = schema then entry.2 else []) ++ tuplesOf schema data := by
  unfold tuplesOf
  split
  · rename_i h
    rw [List.filter_cons_of_pos (by simpa using h), List.flatMap_cons]
  · rename_i h
    rw [List.filter_cons_of_neg (by simpa using h), List.nil_append]

/-- Loading the data is loading each table from the tuples of its schema. -/
theorem populateFromData_iff {data : Data} {db : Database} :
    populateFromData data = some db ↔
      ∀ schema, loadTable schema ⟨[], 1⟩ (tuplesOf schema data) = some (db schema) := by
  have hfrom : ∀ (data : Data) (start : Database),
      data.foldlM (fun db entry =>
        entry.2.foldlM (fun db tuple => loadTuple db entry.1 tuple) db) start = some db ↔
          ∀ schema, loadTable schema (start schema) (tuplesOf schema data) =
            some (db schema) := by
    intro data
    induction data with
    | nil =>
      intro start
      exact ⟨fun h schema => congrArg some (congrFun (Option.some.inj h) schema),
        fun h => congrArg some (funext fun schema => Option.some.inj (h schema))⟩
    | cons entry data ih =>
      intro start
      rw [List.foldlM_cons, foldlM_loadTuple]
      constructor
      · intro h schema
        obtain ⟨next, hnext, hrest⟩ := Option.bind_eq_some_iff.mp h
        obtain ⟨t, ht, rfl⟩ := Option.map_eq_some_iff.mp hnext
        have hafter := (ih _).mp hrest schema
        rw [tuplesOf_cons]
        by_cases hsame : entry.1 = schema
        · subst hsame
          rw [Function.update_self] at hafter
          rw [if_pos rfl, loadTable_append, ht]
          exact hafter
        · rw [Function.update_of_ne (Ne.symm hsame)] at hafter
          rw [if_neg hsame]
          exact hafter
      · intro h
        have hentry := h entry.1
        rw [tuplesOf_cons, if_pos rfl, loadTable_append] at hentry
        obtain ⟨t, ht, hrest⟩ := Option.bind_eq_some_iff.mp hentry
        rw [ht]
        refine (ih (Function.update start entry.1 t)).mpr fun schema => ?_
        by_cases hsame : entry.1 = schema
        · subst hsame
          rw [Function.update_self]
          exact hrest
        · have hother := h schema
          rw [tuplesOf_cons, if_neg hsame] at hother
          rw [Function.update_of_ne (Ne.symm hsame)]
          exact hother
  exact hfrom data emptyTables

/-- Tuples with their keys. -/
theorem loadTable_keyed (hsource : sources.lookup schema = some source) {tuples : List Tuple}
    (h : ∀ tuple ∈ tuples, (keyOf source.primaryKey tuple).isSome) (t : Loaded) :
    loadTable schema t tuples =
      some ⟨tuples.foldl (insertNew (keyOf source.primaryKey)) t.rows, t.next⟩ := by
  induction tuples generalizing t with
  | nil => rfl
  | cons tuple tuples ih =>
    obtain ⟨key, hkey⟩ := Option.isSome_iff_exists.mp (h tuple List.mem_cons_self)
    have hfirst : findOrCreate source t tuple =
        some ⟨insertNew (keyOf source.primaryKey) t.rows tuple, t.next⟩ := by
      unfold findOrCreate
      rw [hkey]
    rw [loadTable_cons hsource, hfirst]
    exact ih (fun other hmem => h other (List.mem_cons_of_mem _ hmem)) _

theorem keyOf_singleton (column : Text) (tuple : Tuple) :
    keyOf [column] tuple = (tuple column).map fun value => [value] := by
  unfold keyOf
  cases h : tuple column with
  | none => simp [h]
  | some value => simp [h]

theorem digits_inj {m n : ℕ} (h : digits m = digits n) : m = n := by
  have hread := congrArg (fun text => Nat.ofDigitChars 10 text 0) h
  unfold digits at hread
  rwa [Nat.ofDigitChars_ten_toDigits, Nat.ofDigitChars_ten_toDigits] at hread

/-- Tuples that take their numbers from the sequence. -/
def number (next : ℕ) : List Tuple → List Tuple
  | [] => []
  | tuple :: tuples => Function.update tuple id (some (digits next)) :: number (next + 1) tuples

theorem loadTable_numbered (hsource : sources.lookup schema = some ⟨[id], true⟩)
    {tuples : List Tuple} (h : ∀ tuple ∈ tuples, tuple id = none) {t : Loaded}
    (hrows : ∀ row ∈ t.rows, ∃ n < t.next, row id = some (digits n)) :
    loadTable schema t tuples =
      some ⟨t.rows ++ number t.next tuples, t.next + tuples.length⟩ := by
  induction tuples generalizing t with
  | nil =>
    unfold number
    rw [List.append_nil]
    rfl
  | cons tuple tuples ih =>
    let row := Function.update tuple id (some (digits t.next))
    have hrow : row id = some (digits t.next) := Function.update_self id _ tuple
    have hnew : keyOf [id] row ∉ t.rows.map (keyOf [id]) := by
      intro hmem
      obtain ⟨other, hother, hkey⟩ := List.mem_map.mp hmem
      obtain ⟨n, hn, hid⟩ := hrows other hother
      rw [keyOf_singleton, keyOf_singleton, hid, hrow] at hkey
      have hsame : digits n = digits t.next :=
        (List.cons.inj (Option.some.inj hkey)).1
      exact absurd (digits_inj hsame) (Nat.ne_of_lt hn)
    have hfirst : findOrCreate ⟨[id], true⟩ t tuple =
        some ⟨t.rows ++ [row], t.next + 1⟩ := by
      unfold findOrCreate
      rw [keyOf_singleton, h tuple List.mem_cons_self]
      exact if_pos ⟨rfl, hnew⟩
    rw [loadTable_cons hsource, hfirst]
    have hrest := ih (fun other hmem => h other (List.mem_cons_of_mem _ hmem))
      (t := ⟨t.rows ++ [row], t.next + 1⟩) (fun other hmem => by
        rcases List.mem_append.mp hmem with hmem | hmem
        · obtain ⟨n, hn, hid⟩ := hrows other hmem
          exact ⟨n, Nat.lt_succ_of_lt hn, hid⟩
        · rw [List.mem_singleton.mp hmem]
          exact ⟨t.next, Nat.lt_succ_self _, hrow⟩)
    have hrows' : t.rows ++ [row] ++ number (t.next + 1) tuples =
        t.rows ++ number t.next (tuple :: tuples) := List.append_assoc _ _ _
    have hnext : t.next + 1 + tuples.length = t.next + (tuple :: tuples).length := by
      rw [List.length_cons, Nat.add_assoc, Nat.add_comm 1]
    rw [← hrows', ← hnext]
    exact hrest

end Tables

/-! ### The tuples of each schema after the steps -/

section Sections

variable {data : Data} {schema : Text}

theorem tuplesOf_append (front back : Data) :
    tuplesOf schema (front ++ back) = tuplesOf schema front ++ tuplesOf schema back := by
  unfold tuplesOf
  rw [List.filter_append, List.flatMap_append]

theorem tuplesOf_singleton (entry : Text × List Tuple) :
    tuplesOf schema [entry] = if entry.1 = schema then entry.2 else [] := by
  rw [tuplesOf_cons]
  exact List.append_nil _

theorem tuplesOf_flatMap (data : Data) (f : Text × List Tuple → Data) :
    tuplesOf schema (data.flatMap f) = data.flatMap fun entry => tuplesOf schema (f entry) := by
  induction data with
  | nil => rfl
  | cons entry data ih => rw [List.flatMap_cons, List.flatMap_cons, tuplesOf_append, ih]

/-- What only the sections of a schema contribute to. -/
theorem flatMap_sections {g : Text × List Tuple → List Tuple}
    (h : ∀ entry : Text × List Tuple, entry.1 ≠ schema → g entry = []) :
    data.flatMap g = (data.filter (·.1 = schema)).flatMap g := by
  induction data with
  | nil => rfl
  | cons entry data ih =>
    rw [List.flatMap_cons, ih]
    by_cases hsame : entry.1 = schema
    · rw [List.filter_cons_of_pos (by simpa using hsame), List.flatMap_cons]
    · rw [List.filter_cons_of_neg (by simpa using hsame), h entry hsame, List.nil_append]

/-- A schema has one section at most. -/
theorem sections_cases (h : (data.map (·.1)).Nodup) (schema : Text) :
    data.filter (·.1 = schema) = [] ∨
      ∃ entry ∈ data, entry.1 = schema ∧ data.filter (·.1 = schema) = [entry] := by
  induction data with
  | nil => exact .inl rfl
  | cons entry data ih =>
    obtain ⟨hfirst, hrest⟩ := List.nodup_cons.mp h
    by_cases hsame : entry.1 = schema
    · have hnone : data.filter (·.1 = schema) = [] := by
        refine List.filter_eq_nil_iff.mpr fun other hmem hother => hfirst ?_
        have hboth : other.1 = entry.1 := (of_decide_eq_true hother).trans hsame.symm
        exact List.mem_map.mpr ⟨other, hmem, hboth⟩
      refine .inr ⟨entry, List.mem_cons_self, hsame, ?_⟩
      rw [List.filter_cons_of_pos (by simpa using hsame), hnone]
    · rw [List.filter_cons_of_neg (by simpa using hsame)]
      refine (ih hrest).imp_right ?_
      rintro ⟨other, hmem, hother⟩
      exact ⟨other, List.mem_cons_of_mem _ hmem, hother⟩

theorem tuplesOf_of_mem (h : (data.map (·.1)).Nodup) {entry : Text × List Tuple}
    (hmem : entry ∈ data) : tuplesOf entry.1 data = entry.2 := by
  have hin : entry ∈ data.filter (·.1 = entry.1) := List.mem_filter.mpr ⟨hmem, by simp⟩
  unfold tuplesOf
  rcases sections_cases h entry.1 with hnone | ⟨other, -, -, hone⟩
  · rw [hnone] at hin
    cases hin
  · rw [hone] at hin ⊢
    rw [List.mem_singleton.mp hin]
    exact List.append_nil _

theorem mem_of_tuplesOf {tuple : Tuple} (h : tuple ∈ tuplesOf schema data) :
    ∃ entry ∈ data, entry.1 = schema ∧ tuple ∈ entry.2 := by
  obtain ⟨entry, hmem, htuple⟩ := List.mem_flatMap.mp h
  obtain ⟨hmem, hsame⟩ := List.mem_filter.mp hmem
  exact ⟨entry, hmem, of_decide_eq_true hsame, htuple⟩

theorem tuplesOf_updated (version : Version) (data : Data) :
    tuplesOf schema (updated version data) = if schema ∈ deleted version then []
      else (tuplesOf schema data).map (addColumns (newColumns version schema)) := by
  unfold updated
  induction data with
  | nil =>
    split
    · rfl
    · rfl
  | cons entry data ih =>
    by_cases hdeleted : entry.1 ∈ deleted version
    · rw [List.filter_cons_of_neg (by simpa using hdeleted), ih]
      split
      · rfl
      · rename_i hkept
        have hother : entry.1 ≠ schema := fun hsame => hkept (hsame ▸ hdeleted)
        rw [tuplesOf_cons, if_neg hother, List.nil_append]
    · rw [List.filter_cons_of_pos (by simpa using hdeleted), List.map_cons, tuplesOf_cons, ih,
        tuplesOf_cons]
      by_cases hsame : entry.1 = schema
      · subst hsame
        rw [if_neg hdeleted, if_pos rfl, if_pos rfl, if_neg hdeleted, List.map_append]
      · rw [if_neg hsame, if_neg hsame]
        rfl

theorem nodup_updated (version : Version) (h : (data.map (·.1)).Nodup) :
    ((updated version data).map (·.1)).Nodup := by
  have hnames : (updated version data).map (·.1) =
      (data.filter (·.1 ∉ deleted version)).map (·.1) := by
    unfold updated
    rw [List.map_map]
    rfl
  rw [hnames]
  exact h.sublist (List.filter_sublist.map _)

end Sections

section Settings

variable {data : Data} {schema owner : Text} (order : HashOrder)

theorem tuplesOf_migrateUpSettings_other (h : ∀ table ∈ settingTables, schema ≠ table.1) :
    tuplesOf schema (migrateUpSettings order data) = tuplesOf schema data := by
  have hworkspace := h _ List.mem_cons_self
  have hdesktop := h _ (List.mem_cons_of_mem _ List.mem_cons_self)
  have heach : ∀ entry : Text × List Tuple, tuplesOf schema
      ((if entry.1 = workspaceSetting then
        [(workspaceSetting, (newSettings order workspaceSetting workspaceId data).2)] else []) ++
      (if entry.1 = desktopSetting then
        [(desktopSetting, (newSettings order desktopSetting desktopId data).2)] else []) ++
      [entry]) = tuplesOf schema [entry] := by
    intro entry
    rw [tuplesOf_append, tuplesOf_append]
    have hnone : ∀ (name : Text) (tuples : List Tuple), schema ≠ name →
        tuplesOf schema (if entry.1 = name then [(name, tuples)] else []) = [] := by
      intro name tuples hne
      split
      · rw [tuplesOf_singleton]
        exact if_neg (Ne.symm hne)
      · rfl
    rw [hnone _ _ hworkspace, hnone _ _ hdesktop]
    rfl
  unfold migrateUpSettings
  rw [tuplesOf_flatMap, funext heach, ← tuplesOf_flatMap, List.flatMap_singleton']

theorem tuplesOf_migrateUpSettings {table : Text × Text} (htable : table ∈ settingTables)
    (h : (data.map (·.1)).Nodup) : tuplesOf table.1 (migrateUpSettings order data) =
      (newSettings order table.1 table.2 data).2 ++ tuplesOf table.1 data := by
  have heach : ∀ entry : Text × List Tuple, tuplesOf table.1
      ((if entry.1 = workspaceSetting then
        [(workspaceSetting, (newSettings order workspaceSetting workspaceId data).2)] else []) ++
      (if entry.1 = desktopSetting then
        [(desktopSetting, (newSettings order desktopSetting desktopId data).2)] else []) ++
      [entry]) = if entry.1 = table.1 then
        (newSettings order table.1 table.2 data).2 ++ entry.2 else [] := by
    intro entry
    rw [tuplesOf_append, tuplesOf_append, tuplesOf_singleton]
    rcases List.mem_cons.mp htable with rfl | hdesktop
    · have hother : tuplesOf workspaceSetting (if entry.1 = desktopSetting then
          [(desktopSetting, (newSettings order desktopSetting desktopId data).2)] else []) = [] := by
        have hne : desktopSetting ≠ workspaceSetting := by decide
        split
        · rw [tuplesOf_singleton]
          exact if_neg hne
        · rfl
      rw [hother, List.append_nil]
      split
      · rw [tuplesOf_singleton, if_pos rfl]
      · rfl
    · rw [List.mem_singleton.mp hdesktop]
      have hother : tuplesOf desktopSetting (if entry.1 = workspaceSetting then
          [(workspaceSetting, (newSettings order workspaceSetting workspaceId data).2)]
          else []) = [] := by
        have hne : workspaceSetting ≠ desktopSetting := by decide
        split
        · rw [tuplesOf_singleton]
          exact if_neg hne
        · rfl
      rw [hother, List.nil_append]
      split
      · rw [tuplesOf_singleton, if_pos rfl]
      · rfl
  unfold migrateUpSettings
  rw [tuplesOf_flatMap, funext heach, flatMap_sections fun entry hother => if_neg hother]
  unfold tuplesOf
  rcases sections_cases h table.1 with hnone | ⟨entry, -, hsame, hone⟩
  · rw [hnone]
    unfold newSettings
    rw [hnone]
    rfl
  · rw [hone, List.flatMap_singleton, if_pos hsame, List.flatMap_singleton]

end Settings

/-! ### The new settings -/

section NewSettings

variable {owner : Text} {tuples : List Tuple}

/-- The flag of an owner among some tuples. -/
def flagOf (owner : Text) (tuples : List Tuple) (key : Text) : ℤ :=
  if tuples.any fun tuple => ownerOf owner tuple = key && isLayout tuple then -1 else 1

/-- The flags of the owners of some tuples. -/
structure Notes (owner : Text) (tuples : List Tuple) (flags : List (Text × ℤ)) : Prop where
  nodup : (flags.map (·.1)).Nodup
  mem_iff : ∀ key flag, (key, flag) ∈ flags ↔
    (∃ tuple ∈ tuples, ownerOf owner tuple = key) ∧ flag = flagOf owner tuples key

theorem flagOf_snoc (tuple : Tuple) (key : Text) : flagOf owner (tuples ++ [tuple]) key =
    if ownerOf owner tuple = key ∧ isLayout tuple = true then -1
    else flagOf owner tuples key := by
  unfold flagOf
  rw [List.any_append, List.any_cons, List.any_nil, Bool.or_false]
  by_cases hlast : ownerOf owner tuple = key ∧ isLayout tuple = true
  · rw [if_pos hlast, if_pos]
    simp [hlast.1, hlast.2]
  · rw [if_neg hlast]
    have hfalse : (decide (ownerOf owner tuple = key) && isLayout tuple) = false := by
      rw [← Bool.not_eq_true, Bool.and_eq_true, decide_eq_true_eq]
      exact hlast
    rw [hfalse, Bool.or_false]

theorem flagOf_of_none {key : Text} (h : ∀ tuple ∈ tuples, ownerOf owner tuple ≠ key) :
    flagOf owner tuples key = 1 := by
  unfold flagOf
  refine if_neg fun hany => ?_
  obtain ⟨tuple, hmem, hboth⟩ := List.any_eq_true.mp hany
  exact h tuple hmem (of_decide_eq_true ((Bool.and_eq_true _ _).mp hboth).1)

/-- The flags with an owner that may be new. -/
theorem Notes.see {flags : List (Text × ℤ)} (h : Notes owner tuples flags) (tuple : Tuple) :
    ((see flags (ownerOf owner tuple)).map (·.1)).Nodup ∧
      ∀ other flag, (other, flag) ∈ see flags (ownerOf owner tuple) ↔
        (∃ t ∈ tuples ++ [tuple], ownerOf owner t = other) ∧
          flag = flagOf owner tuples other := by
  have hoccurs : ∀ other, (∃ t ∈ tuples ++ [tuple], ownerOf owner t = other) ↔
      (∃ t ∈ tuples, ownerOf owner t = other) ∨ other = ownerOf owner tuple := by
    intro other
    simp only [List.mem_append, List.mem_singleton, or_and_right, exists_or, exists_eq_left]
    exact or_congr_right eq_comm
  by_cases hin : ∃ t ∈ tuples, ownerOf owner t = ownerOf owner tuple
  · have hflags : DumpUpgrade.see flags (ownerOf owner tuple) = flags := by
      refine if_neg fun hnone => ?_
      rw [Option.isNone_iff_eq_none, List.lookup_eq_none_iff] at hnone
      have hmem := (h.mem_iff _ (flagOf owner tuples (ownerOf owner tuple))).mpr ⟨hin, rfl⟩
      exact absurd (hnone _ hmem) (by simp)
    rw [hflags]
    refine ⟨h.nodup, fun other flag => (h.mem_iff other flag).trans ?_⟩
    rw [hoccurs, or_iff_left_of_imp]
    rintro rfl
    exact hin
  · have hnew : ∀ entry ∈ flags, entry.1 ≠ ownerOf owner tuple := by
      rintro ⟨other, flag⟩ hmem rfl
      exact hin ((h.mem_iff _ _).mp hmem).1
    have hnone : flagOf owner tuples (ownerOf owner tuple) = 1 :=
      flagOf_of_none fun t hmem hkey => hin ⟨t, hmem, hkey⟩
    have hflags : DumpUpgrade.see flags (ownerOf owner tuple) =
        flags ++ [(ownerOf owner tuple, 1)] := by
      refine if_pos ?_
      rw [Option.isNone_iff_eq_none, List.lookup_eq_none_iff]
      intro entry hmem
      simpa using (hnew entry hmem).symm
    rw [hflags]
    refine ⟨?_, fun other flag => ?_⟩
    · rw [List.map_append, List.nodup_append']
      refine ⟨h.nodup, List.nodup_singleton _, ?_⟩
      intro other hmem hlast
      obtain ⟨entry, hentry, rfl⟩ := List.mem_map.mp hmem
      exact hnew entry hentry (List.mem_singleton.mp hlast)
    · rw [List.mem_append, h.mem_iff, List.mem_singleton, hoccurs, or_and_right]
      refine or_congr_right ?_
      constructor
      · intro hsame
        obtain ⟨rfl, rfl⟩ := Prod.mk.inj hsame
        exact ⟨rfl, hnone.symm⟩
      · rintro ⟨rfl, rfl⟩
        rw [hnone]

theorem Notes.note {flags : List (Text × ℤ)} (h : Notes owner tuples flags) (tuple : Tuple) :
    Notes owner (tuples ++ [tuple]) (note owner flags tuple) := by
  obtain ⟨hnodup, hmem⟩ := h.see tuple
  unfold DumpUpgrade.note
  dsimp only
  generalize DumpUpgrade.see flags (ownerOf owner tuple) = seen at hnodup hmem ⊢
  cases hlayout : isLayout tuple with
  | false =>
    rw [if_neg Bool.false_ne_true]
    refine ⟨hnodup, fun other flag => ?_⟩
    rw [hmem, flagOf_snoc, if_neg fun hboth => Bool.false_ne_true (hlayout.symm.trans hboth.2)]
  | true =>
    rw [if_pos rfl]
    constructor
    · have hnames : (seen.map fun entry =>
          if entry.1 = ownerOf owner tuple then (ownerOf owner tuple, -1) else entry).map (·.1) =
            seen.map (·.1) := by
        rw [List.map_map]
        refine List.map_congr_left fun entry _ => ?_
        change (if entry.1 = ownerOf owner tuple then (ownerOf owner tuple, -1) else entry).1 = _
        split
        · rename_i hsame
          exact hsame.symm
        · rfl
      rw [hnames]
      exact hnodup
    · intro other flag
      rw [List.mem_map, flagOf_snoc]
      constructor
      · rintro ⟨entry, hentry, hto⟩
        have hold := (hmem entry.1 entry.2).mp hentry
        split at hto
        · rename_i hsame
          obtain ⟨rfl, rfl⟩ := Prod.mk.inj hto
          rw [if_pos ⟨rfl, hlayout⟩]
          exact ⟨hsame ▸ hold.1, rfl⟩
        · rename_i hother
          obtain rfl : entry = (other, flag) := hto
          rw [if_neg fun hboth => hother hboth.1.symm]
          exact hold
      · rintro ⟨hoccurs, rfl⟩
        refine ⟨(other, flagOf owner tuples other), (hmem _ _).mpr ⟨hoccurs, rfl⟩, ?_⟩
        by_cases hsame : other = ownerOf owner tuple
        · rw [if_pos hsame, if_pos ⟨hsame.symm, hlayout⟩, hsame]
        · rw [if_neg hsame, if_neg fun hboth => hsame hboth.1.symm]

theorem notes (owner : Text) (tuples : List Tuple) :
    Notes owner tuples (tuples.foldl (note owner) []) := by
  induction tuples using List.reverseRecOn with
  | nil => exact ⟨List.nodup_nil, fun key flag => iff_of_false List.not_mem_nil (by simp)⟩
  | append_singleton tuples tuple ih =>
    rw [List.foldl_append]
    exact ih.note tuple

variable (order : HashOrder)

/-- The owners that get a setting, in the order of the hash. -/
def newOwners (owner : Text) (tuples : List Tuple) : List Text :=
  ((order.keys (tuples.foldl (note owner) [])).filter (·.2 = 1)).map (·.1)

theorem newSettings_eq {data : Data} (h : (data.map (·.1)).Nodup) (schema : Text) :
    (newSettings order schema owner data).2 =
      (newOwners order owner (tuplesOf schema data)).map (newSetting owner) := by
  have hnil : order.keys ([] : List (Text × ℤ)) = [] := (order.perm _).eq_nil
  unfold newSettings newOwners tuplesOf
  rcases sections_cases h schema with hnone | ⟨entry, -, -, hone⟩
  · rw [hnone]
    simp [hnil]
  · rw [hone, List.flatMap_singleton, List.foldl_cons, List.foldl_nil, List.map_map]
    rfl

theorem nodup_newOwners : (newOwners order owner tuples).Nodup := by
  have hperm := (order.perm (tuples.foldl (note owner) [])).map (·.1)
  have hkeys := hperm.nodup_iff.mpr (notes owner tuples).nodup
  exact hkeys.sublist (List.filter_sublist.map _)

/-- Settings have an owner. -/
def Owned (owner : Text) (tuples : List Tuple) : Prop :=
  ∀ tuple ∈ tuples, (tuple owner).isSome = true

theorem ownerOf_eq_iff (h : Owned owner tuples) {tuple : Tuple} (hmem : tuple ∈ tuples)
    {key : Text} : ownerOf owner tuple = key ↔ tuple owner = some key := by
  obtain ⟨value, hvalue⟩ := Option.isSome_iff_exists.mp (h tuple hmem)
  unfold ownerOf
  rw [hvalue]
  exact ⟨congrArg some, Option.some.inj⟩

theorem mem_newOwners {key : Text} : key ∈ newOwners order owner tuples ↔
    (∃ tuple ∈ tuples, ownerOf owner tuple = key) ∧
      ∀ tuple ∈ tuples, ¬(ownerOf owner tuple = key ∧ isLayout tuple = true) := by
  have hflag : flagOf owner tuples key = 1 ↔
      ∀ tuple ∈ tuples, ¬(ownerOf owner tuple = key ∧ isLayout tuple = true) := by
    unfold flagOf
    constructor
    · intro hone tuple hmem hboth
      rw [if_pos] at hone
      · exact absurd hone (by decide)
      · exact List.any_eq_true.mpr ⟨tuple, hmem, by simp [hboth.1, hboth.2]⟩
    · intro hnone
      refine if_neg fun hany => ?_
      obtain ⟨tuple, hmem, hboth⟩ := List.any_eq_true.mp hany
      obtain ⟨hkey, hlayout⟩ := (Bool.and_eq_true _ _).mp hboth
      exact hnone tuple hmem ⟨of_decide_eq_true hkey, hlayout⟩
  unfold newOwners
  rw [List.mem_map]
  constructor
  · rintro ⟨⟨other, flag⟩, hmem, rfl⟩
    obtain ⟨hmem, hone⟩ := List.mem_filter.mp hmem
    obtain ⟨hoccurs, hflagOf⟩ :=
      ((notes owner tuples).mem_iff _ _).mp ((order.perm _).mem_iff.mp hmem)
    exact ⟨hoccurs, hflag.mp (hflagOf.symm.trans (of_decide_eq_true hone))⟩
  · rintro ⟨hoccurs, hnone⟩
    refine ⟨(key, 1), List.mem_filter.mpr ⟨(order.perm _).mem_iff.mpr ?_, by simp⟩, rfl⟩
    exact ((notes owner tuples).mem_iff _ _).mpr ⟨hoccurs, (hflag.mpr hnone).symm⟩

theorem newOwners_perm (h : Owned owner tuples) :
    (newOwners order owner tuples).Perm (lacking owner tuples) := by
  refine (List.perm_ext_iff_of_nodup (nodup_newOwners order)
    ((List.nodup_dedup _).filter _)).mpr fun key => ?_
  rw [mem_newOwners, List.mem_filter, List.mem_dedup, List.mem_map, List.all_eq_true]
  refine and_congr_right fun _ => forall₂_congr fun tuple hmem => ?_
  rw [ownerOf_eq_iff h hmem]
  simp [imp_iff_not_or]

end NewSettings

/-! ### The rows of a dump -/

section Base

variable {schema : Text} {tuples : List Tuple}

theorem primaryKey_of_lookup {source : Source} (h : sources.lookup schema = some source) :
    primaryKey schema = source.primaryKey := by
  unfold primaryKey
  rw [h]
  rfl

/-- Tuples of a table with their keys are looked up one after the other. -/
theorem load_keyed (hknown : tuples ≠ [] → (sources.lookup schema).isSome)
    (hkeyed : ∀ tuple ∈ tuples, (keyOf (primaryKey schema) tuple).isSome) (t : Loaded) :
    loadTable schema t tuples =
      some ⟨tuples.foldl (insertNew (keyOf (primaryKey schema))) t.rows, t.next⟩ := by
  by_cases hnil : tuples = []
  · subst hnil
    rfl
  · obtain ⟨source, hsource⟩ := Option.isSome_iff_exists.mp (hknown hnil)
    rw [primaryKey_of_lookup hsource] at hkeyed ⊢
    exact loadTable_keyed hsource hkeyed t

theorem addColumns_of_ne {columns : List (Text × Text)} {column : Text}
    (h : ∀ new ∈ columns, new.1 ≠ column) (tuple : Tuple) :
    addColumns columns tuple column = tuple column := by
  unfold addColumns
  induction columns generalizing tuple with
  | nil => rfl
  | cons first columns ih =>
    rw [List.foldl_cons, ih fun new hmem => h new (List.mem_cons_of_mem _ hmem)]
    exact Function.update_of_ne (h first List.mem_cons_self).symm _ _

variable {version : Version} (dump : Dump version)

/-- What a row has it has with the new columns too. -/
theorem addColumns_of_some {entry : Text × List Tuple} (hentry : entry ∈ dump.data)
    {tuple : Tuple} (htuple : tuple ∈ entry.2) {column value : Text}
    (h : tuple column = some value) :
    addColumns (newColumns version entry.1) tuple column = some value := by
  rw [addColumns_of_ne, h]
  rintro new hnew rfl
  rw [dump.fresh entry hentry new hnew tuple htuple] at h
  cases h

theorem tuplesOf_kept (hkept : Kept version schema) :
    tuplesOf schema (updated version dump.data) =
      (tuplesOf schema dump.data).map (addColumns (newColumns version schema)) := by
  rw [tuplesOf_updated, if_neg hkept.1]

theorem keyed_kept (hkept : Kept version schema) :
    ∀ tuple ∈ tuplesOf schema (updated version dump.data),
      (keyOf (primaryKey schema) tuple).isSome := by
  rw [tuplesOf_kept dump hkept]
  intro tuple hmem
  obtain ⟨old, hold, rfl⟩ := List.mem_map.mp hmem
  obtain ⟨entry, hentry, rfl, htuple⟩ := mem_of_tuplesOf hold
  exact dump.keyed entry hentry hkept old htuple

theorem distinct_kept (hkept : Kept version schema) :
    ((tuplesOf schema (updated version dump.data)).map (keyOf (primaryKey schema))).Nodup := by
  rw [tuplesOf_kept dump hkept, List.map_map]
  unfold tuplesOf
  rcases sections_cases dump.schemas_nodup schema with hnone | ⟨entry, hentry, rfl, hone⟩
  · rw [hnone]
    exact List.nodup_nil
  · rw [hone, List.flatMap_singleton]
    exact dump.distinct entry hentry hkept

theorem known_updated (h : tuplesOf schema (updated version dump.data) ≠ []) :
    (sources.lookup schema).isSome := by
  rw [tuplesOf_updated] at h
  split at h
  · exact absurd rfl h
  · obtain ⟨tuple, hmem⟩ := List.exists_mem_of_ne_nil _ (mt (List.map_eq_nil_iff.mpr) h)
    obtain ⟨entry, hentry, rfl, -⟩ := mem_of_tuplesOf hmem
    exact dump.known entry hentry

/-- The rows of a table that is kept are loaded as they are. -/
theorem load_kept (hkept : Kept version schema) :
    loadTable schema ⟨[], 1⟩ (tuplesOf schema (updated version dump.data)) =
      some ⟨tuplesOf schema (updated version dump.data), 1⟩ := by
  rw [load_keyed (known_updated dump) (keyed_kept dump hkept),
    foldl_insertNew_of_fresh (distinct_kept dump hkept) fun _ _ => List.not_mem_nil]
  rfl

/-- A table has all rows of a section that it got with the new columns. -/
theorem keeps_of_mem {rows : List Tuple} {entry : Text × List Tuple} (hentry : entry ∈ dump.data)
    (hkept : Kept version entry.1)
    (h : ∀ row ∈ tuplesOf entry.1 (updated version dump.data), row ∈ rows) :
    ∀ tuple ∈ entry.2, ∃ row ∈ rows, ∀ column value, tuple column = some value →
      row column = some value := by
  intro tuple htuple
  refine ⟨_, h (addColumns (newColumns version entry.1) tuple) ?_,
    fun column value hvalue => addColumns_of_some dump hentry htuple hvalue⟩
  rw [tuplesOf_kept dump hkept, tuplesOf_of_mem dump.schemas_nodup hentry]
  exact List.mem_map_of_mem htuple

end Base

/-! ### The steps of 3.6 and 4.0 -/

section OlderSteps

variable {data : Data} {schema : Text}

theorem tuplesOf_migrateDis_other (h : schema ≠ diRuntime) :
    tuplesOf schema (migrateDis data) = tuplesOf schema data := by
  have heach : ∀ entry : Text × List Tuple, tuplesOf schema
      ((if entry.1 = di then [(diRuntime, (tuplesOf di data).map newRuntime)] else []) ++
        [entry]) = tuplesOf schema [entry] := by
    intro entry
    rw [tuplesOf_append]
    split
    · rw [tuplesOf_singleton, if_neg (Ne.symm h), List.nil_append]
    · rfl
  have hall := (tuplesOf_flatMap data _).trans
    ((congrArg data.flatMap (funext heach)).trans (tuplesOf_flatMap data _).symm)
  rw [List.flatMap_singleton'] at hall
  exact hall

/-- Each image gets a runtime. -/
theorem tuplesOf_migrateDis (h : (data.map (·.1)).Nodup)
    (hnone : ∀ entry ∈ data, entry.1 ≠ diRuntime) :
    tuplesOf diRuntime (migrateDis data) = (tuplesOf di data).map newRuntime := by
  have heach : ∀ entry ∈ data, tuplesOf diRuntime
      ((if entry.1 = di then [(diRuntime, (tuplesOf di data).map newRuntime)] else []) ++
        [entry]) = if entry.1 = di then (tuplesOf di data).map newRuntime else [] := by
    intro entry hentry
    rw [tuplesOf_append, tuplesOf_singleton, if_neg (hnone entry hentry), List.append_nil]
    split
    · rw [tuplesOf_singleton, if_pos rfl]
    · rfl
  have hall : tuplesOf diRuntime (migrateDis data) = data.flatMap fun entry =>
      if entry.1 = di then (tuplesOf di data).map newRuntime else [] :=
    (tuplesOf_flatMap _ _).trans (List.flatMap_congr heach)
  rw [hall, flatMap_sections fun entry hother => if_neg hother]
  rcases sections_cases h di with hno | ⟨entry, -, hsame, hone⟩
  · unfold tuplesOf
    rw [hno]
    rfl
  · rw [hone, List.flatMap_singleton, if_pos hsame]

/-- The tables that get new rows from the old properties. -/
def generatedTables : List Text :=
  "Property_List".toList :: "QVD_Object_Property_List".toList :: schemaToEnum.map (·.1)

theorem objId_of_mem_properties
    (h : ∀ schema ∈ schemaToEnum, ∀ entry ∈ data, entry.1 = schema.1 →
      ∀ tuple ∈ entry.2, (tuple (objectId schema.2)).isSome)
    {property : Property} (hmem : property ∈ properties data) : property.objId.isSome := by
  obtain ⟨entry, hentry, hin⟩ := List.mem_flatMap.mp hmem
  split at hin
  · rename_i enum hlookup
    obtain ⟨tuple, htuple, rfl⟩ := List.mem_map.mp hin
    obtain ⟨front, back, hsplit, -⟩ := List.lookup_eq_some_iff.mp hlookup
    have hschema : (entry.1, enum) ∈ schemaToEnum :=
      hsplit ▸ List.mem_append_right _ List.mem_cons_self
    exact h _ hschema entry hentry rfl tuple htuple
  · cases hin

theorem keyOf_isSome_iff {columns : List Text} {tuple : Tuple} :
    (keyOf columns tuple).isSome ↔ ∀ column ∈ columns, (tuple column).isSome := by
  unfold keyOf
  induction columns with
  | nil => simp
  | cons column columns ih =>
    rw [List.forall_mem_cons, ← ih, List.mapM_cons]
    cases tuple column with
    | none => simp
    | some value => cases List.mapM tuple columns <;> simp

theorem hash_self (column : Text) (value : Option Text) (pairs : List (Text × Option Text)) :
    hash ((column, value) :: pairs) column = value := by
  unfold hash
  rw [List.lookup_cons_self]
  rfl

theorem hash_of_ne {column other : Text} (h : other ≠ column) {value : Option Text}
    {pairs : List (Text × Option Text)} :
    hash ((other, value) :: pairs) column = hash pairs column := by
  unfold hash
  rw [List.lookup_cons, beq_false_of_ne h.symm]

theorem primaryKey_numbered : primaryKey "Property_List".toList = [id] ∧
    primaryKey "QVD_Object_Property_List".toList = [id] := by decide

theorem primaryKey_values : ∀ schema ∈ schemaToEnum,
    primaryKey schema.1 = [objectId schema.2, "property_id".toList] ∧
      objectId schema.2 ≠ "property_id".toList := by decide

/-- The new rows have their keys. -/
theorem migrateProperties_eq (order : HashOrder)
    (h : ∀ schema ∈ schemaToEnum, ∀ entry ∈ data, entry.1 = schema.1 →
      ∀ tuple ∈ entry.2, (tuple (objectId schema.2)).isSome) :
    ∃ new : Data, migrateProperties order data =
        data.filter (fun entry => (schemaToEnum.lookup entry.1).isNone) ++ new ∧
      ∀ entry ∈ new, entry.1 ∈ generatedTables ∧
        ∀ tuple ∈ entry.2, (keyOf (primaryKey entry.1) tuple).isSome := by
  unfold migrateProperties
  refine ⟨_, List.append_assoc _ _ _, fun entry hentry => ?_⟩
  rcases List.mem_append.mp hentry with hlists | hvalues
  · rcases List.mem_cons.mp hlists with rfl | hlists
    · refine ⟨List.mem_cons_self, fun tuple htuple => ?_⟩
      obtain ⟨numbered, -, rfl⟩ := List.mem_map.mp htuple
      rw [primaryKey_numbered.1, keyOf_singleton]
      rfl
    · obtain rfl := List.mem_singleton.mp hlists
      refine ⟨List.mem_cons_of_mem _ List.mem_cons_self, fun tuple htuple => ?_⟩
      obtain ⟨index, hindex, rfl⟩ := List.mem_mapIdx.mp htuple
      rw [primaryKey_numbered.2, keyOf_singleton]
      rfl
  · obtain ⟨schema, hschema, rfl⟩ := List.mem_map.mp hvalues
    have hschema := (order.perm _).mem_iff.mp hschema
    refine ⟨List.mem_cons_of_mem _ (List.mem_cons_of_mem _ (List.mem_map_of_mem hschema)),
      fun tuple htuple => ?_⟩
    obtain ⟨numbered, hnumbered, rfl⟩ := List.mem_map.mp htuple
    have hproperty : numbered.1 ∈ properties data :=
      List.fst_mem_of_mem_zipIdx (List.mem_filter.mp hnumbered).1
    obtain ⟨hkey, hne⟩ := primaryKey_values schema hschema
    rw [hkey, keyOf_isSome_iff, List.forall_mem_cons]
    constructor
    · rw [hash_self]
      exact objId_of_mem_properties h hproperty
    · intro column hcolumn
      rw [List.mem_singleton.mp hcolumn, hash_of_ne hne, hash_of_ne (by decide), hash_self]
      rfl

end OlderSteps

/-! ### The settings after the step of 4.1 -/

section LayoutStep

variable (order : HashOrder) {owner : Text} {tuples : List Tuple}

theorem mem_number {row : Tuple} {next : ℕ} {new : List Tuple} : row ∈ number next new ↔
    ∃ i tuple, new[i]? = some tuple ∧
      row = Function.update tuple id (some (digits (next + i))) := by
  induction new generalizing next with
  | nil => simp [number]
  | cons first new ih =>
    unfold number
    rw [List.mem_cons, ih]
    constructor
    · rintro (rfl | ⟨i, tuple, htuple, rfl⟩)
      · exact ⟨0, first, rfl, rfl⟩
      · refine ⟨i + 1, tuple, htuple, ?_⟩
        rw [Nat.add_assoc, Nat.add_comm 1 i]
    · rintro ⟨i, tuple, htuple, rfl⟩
      cases i with
      | zero =>
        obtain rfl := Option.some.inj htuple
        exact .inl rfl
      | succ i =>
        refine .inr ⟨i, tuple, htuple, ?_⟩
        rw [Nat.add_assoc, Nat.add_comm 1 i]

theorem number_map {β : Type*} {g : Tuple → β} {next : ℕ} {new : List Tuple}
    (h : ∀ tuple number, g (Function.update tuple id number) = g tuple) :
    (number next new).map g = new.map g := by
  induction new generalizing next with
  | nil => rfl
  | cons first new ih =>
    unfold number
    rw [List.map_cons, List.map_cons, ih, h]

/-- The new settings as they are loaded. -/
def newRows (owner : Text) (tuples : List Tuple) : List Tuple :=
  number 1 ((newOwners order owner tuples).map (newSetting owner))

/-- Tables of settings are numbered; their owners are neither ids nor parameters. -/
theorem settingTables_spec : ∀ table ∈ settingTables,
    sources.lookup table.1 = some ⟨[id], true⟩ ∧ primaryKey table.1 = [id] ∧
      table.2 ≠ id ∧ table.2 ≠ parameter := by
  intro table htable
  rcases List.mem_cons.mp htable with rfl | hdesktop
  · exact ⟨rfl, rfl, by decide, by decide⟩
  · rw [List.mem_singleton.mp hdesktop]
    exact ⟨rfl, rfl, by decide, by decide⟩

theorem newSetting_id (hid : owner ≠ id) (key : Text) : newSetting owner key id = none := by
  unfold newSetting
  rw [hash_of_ne hid, hash_of_ne (by decide), hash_of_ne (by decide)]
  rfl

theorem newSetting_owner (key : Text) : newSetting owner key owner = some key :=
  hash_self _ _ _

theorem newSetting_parameter (hparameter : owner ≠ parameter) (key : Text) :
    newSetting owner key parameter = some kbLayout := by
  unfold newSetting
  rw [hash_of_ne hparameter]
  exact hash_self _ _ _

/-- The owner and the parameter of a setting. -/
def pairOf (owner : Text) (tuple : Tuple) : Option Text × Option Text :=
  (tuple owner, tuple parameter)

theorem map_pairOf_newRows (hid : owner ≠ id) (hparameter : owner ≠ parameter) :
    (newRows order owner tuples).map (pairOf owner) =
      (newOwners order owner tuples).map fun key => (some key, some kbLayout) := by
  unfold newRows
  rw [number_map, List.map_map]
  · refine List.map_congr_left fun key _ => ?_
    exact Prod.ext (newSetting_owner key) (newSetting_parameter hparameter key)
  · intro tuple number
    unfold pairOf
    rw [Function.update_of_ne hid, Function.update_of_ne (show parameter ≠ id by decide)]

/-- A new row has one of the first numbers. -/
theorem id_of_mem_newRows (h : Owned owner tuples) {row : Tuple}
    (hmem : row ∈ newRows order owner tuples) :
    ∃ n, 1 ≤ n ∧ n ≤ (lacking owner tuples).length ∧ row id = some (digits n) := by
  obtain ⟨i, tuple, htuple, rfl⟩ := mem_number.mp hmem
  obtain ⟨hi, -⟩ := List.getElem?_eq_some_iff.mp htuple
  rw [List.length_map, (newOwners_perm order h).length_eq] at hi
  exact ⟨1 + i, Nat.le_add_right 1 i, by omega, Function.update_self _ _ _⟩

theorem exists_newRow (h : Owned owner tuples) {n : ℕ} (hpos : 1 ≤ n)
    (hle : n ≤ (lacking owner tuples).length) :
    ∃ row ∈ newRows order owner tuples, row id = some (digits n) := by
  have hlt : n - 1 < ((newOwners order owner tuples).map (newSetting owner)).length := by
    rw [List.length_map, (newOwners_perm order h).length_eq]
    omega
  refine ⟨_, mem_number.mpr ⟨n - 1, _, List.getElem?_eq_getElem hlt, rfl⟩, ?_⟩
  rw [Function.update_self, Nat.add_sub_cancel' hpos]

/-- The table of settings after the load. -/
def settingRows (owner : Text) (tuples : List Tuple) : List Tuple :=
  newRows order owner tuples ++ tuples.filter fun tuple =>
    keyOf [id] tuple ∉ (newRows order owner tuples).map (keyOf [id])

theorem load_settings {table : Text × Text} (htable : table ∈ settingTables)
    (hkeyed : ∀ tuple ∈ tuples, (keyOf [id] tuple).isSome)
    (hdistinct : (tuples.map (keyOf [id])).Nodup) :
    ∃ next, loadTable table.1 ⟨[], 1⟩
      ((newOwners order table.2 tuples).map (newSetting table.2) ++ tuples) =
        some ⟨settingRows order table.2 tuples, next⟩ := by
  obtain ⟨hsource, hkey, hid, -⟩ := settingTables_spec table htable
  have hnew : ∀ tuple ∈ (newOwners order table.2 tuples).map (newSetting table.2),
      tuple id = none := by
    intro tuple hmem
    obtain ⟨key, -, rfl⟩ := List.mem_map.mp hmem
    exact newSetting_id hid key
  have hempty : ∀ row ∈ (⟨[], 1⟩ : Loaded).rows, ∃ n < 1, row id = some (digits n) :=
    fun row hmem => absurd hmem List.not_mem_nil
  refine ⟨1 + ((newOwners order table.2 tuples).map (newSetting table.2)).length, ?_⟩
  rw [loadTable_append, loadTable_numbered hsource hnew hempty, Option.bind_some,
    loadTable_keyed hsource hkeyed, foldl_insertNew hdistinct]
  refine congrArg (fun kept => some (Loaded.mk (newRows order table.2 tuples ++ kept) _)) ?_
  exact List.filter_congr fun tuple _ => decide_eq_decide.mpr Iff.rfl

theorem settingRows_of_free (h : Owned owner tuples) (hfree : FreeIds owner tuples) :
    settingRows order owner tuples = newRows order owner tuples ++ tuples := by
  unfold settingRows
  refine congrArg (_ ++ ·) (List.filter_eq_self.mpr fun tuple htuple => decide_eq_true ?_)
  intro htaken
  obtain ⟨row, hrow, hkey⟩ := List.mem_map.mp htaken
  obtain ⟨n, hpos, hle, hid⟩ := id_of_mem_newRows order h hrow
  rw [keyOf_singleton, keyOf_singleton, hid] at hkey
  cases hold : tuple id with
  | none =>
    rw [hold] at hkey
    cases hkey
  | some key =>
    rw [hold] at hkey
    obtain rfl := (List.cons.inj (Option.some.inj hkey)).1
    exact hfree tuple htuple n hpos hle hold

/-- Every setting is kept if the new ones take no number of theirs. A new row in the place of an
old one has another owner or another parameter. -/
theorem keeps_settings_iff (hid : owner ≠ id) (hparameter : owner ≠ parameter)
    (h : Owned owner tuples) (hnamed : ∀ tuple ∈ tuples, (tuple parameter).isSome) :
    (∀ tuple ∈ tuples, ∃ row ∈ settingRows order owner tuples, ∀ column value,
      tuple column = some value → row column = some value) ↔ FreeIds owner tuples := by
  constructor
  · intro hkeeps tuple htuple n hpos hle hold
    obtain ⟨row, hrow, hsame⟩ := hkeeps tuple htuple
    rcases List.mem_append.mp hrow with hnew | hkept
    · have hpair : pairOf owner row ∈ (newOwners order owner tuples).map fun key =>
          (some key, some kbLayout) :=
        map_pairOf_newRows order hid hparameter ▸ List.mem_map_of_mem hnew
      obtain ⟨key, hkey, hboth⟩ := List.mem_map.mp hpair
      obtain ⟨howner, hlayout⟩ := Prod.mk.inj hboth
      obtain ⟨value, hvalue⟩ := Option.isSome_iff_exists.mp (h tuple htuple)
      obtain ⟨name, hname⟩ := Option.isSome_iff_exists.mp (hnamed tuple htuple)
      have hvalue' : some key = some value := howner.trans (hsame owner value hvalue)
      have hname' : some kbLayout = some name := hlayout.trans (hsame parameter name hname)
      have hlacks := ((mem_newOwners order).mp hkey).2 tuple htuple
      refine hlacks ⟨(ownerOf_eq_iff h htuple).mpr (hvalue.trans hvalue'.symm), ?_⟩
      exact decide_eq_true (hname.trans hname'.symm)
    · obtain ⟨other, hother, hnumber⟩ := exists_newRow order h hpos hle
      refine of_decide_eq_true (List.mem_filter.mp hkept).2 (List.mem_map.mpr ⟨other, hother, ?_⟩)
      rw [keyOf_singleton, keyOf_singleton, hnumber, hsame id _ hold]
  · intro hfree tuple htuple
    rw [settingRows_of_free order h hfree]
    exact ⟨tuple, List.mem_append_right _ htuple, fun _ _ hvalue => hvalue⟩

/-- With one row for an owner and a parameter, one kb_layout for each owner is one at least. -/
theorem layouts_iff {rows : List Tuple} (h : (rows.map (pairOf owner)).Nodup) :
    (∀ setting ∈ rows,
      rows.countP (fun row => row owner = setting owner && isLayout row) = 1) ↔
        HasLayouts owner rows := by
  refine forall₂_congr fun setting _ => ?_
  have hcount : rows.countP (fun row => row owner = setting owner && isLayout row) =
      rows.countP fun row => pairOf owner row = (setting owner, some kbLayout) := by
    refine List.countP_congr fun row _ => ?_
    rw [Bool.and_eq_true, decide_eq_true_eq, decide_eq_true_eq]
    unfold isLayout pairOf
    rw [decide_eq_true_eq, Prod.mk.injEq]
  rw [hcount, countP_eq_one_iff h]
  refine exists_congr fun other => and_congr_right fun _ => ?_
  unfold isLayout pairOf
  rw [decide_eq_true_eq, Prod.mk.injEq]

/-- The new settings and the old ones have different owners or parameters. -/
theorem nodup_pairOf (hid : owner ≠ id) (hparameter : owner ≠ parameter)
    (h : Owned owner tuples) (hpairs : (tuples.map (pairOf owner)).Nodup) :
    ((newRows order owner tuples ++ tuples).map (pairOf owner)).Nodup := by
  rw [List.map_append, map_pairOf_newRows order hid hparameter, List.nodup_append']
  refine ⟨(nodup_newOwners order).map fun key other hsame =>
    Option.some.inj (Prod.mk.inj hsame).1, hpairs, fun pair hnew hold => ?_⟩
  obtain ⟨key, hkey, rfl⟩ := List.mem_map.mp hnew
  obtain ⟨tuple, htuple, hboth⟩ := List.mem_map.mp hold
  obtain ⟨howner, hlayout⟩ := Prod.mk.inj hboth
  exact ((mem_newOwners order).mp hkey).2 tuple htuple
    ⟨(ownerOf_eq_iff h htuple).mpr howner, decide_eq_true hlayout⟩

/-- Every owner has kb_layout, with a new row or an old one. -/
theorem hasLayouts_newRows (hid : owner ≠ id) (hparameter : owner ≠ parameter)
    (h : Owned owner tuples) : HasLayouts owner (newRows order owner tuples ++ tuples) := by
  have howner : ∀ key, key ∈ newOwners order owner tuples →
      ∃ row ∈ newRows order owner tuples, row owner = some key ∧ isLayout row = true := by
    intro key hkey
    have hpair : (some key, some kbLayout) ∈
        (newRows order owner tuples).map (pairOf owner) := by
      rw [map_pairOf_newRows order hid hparameter]
      exact List.mem_map_of_mem hkey
    obtain ⟨row, hrow, hboth⟩ := List.mem_map.mp hpair
    obtain ⟨hsame, hlayout⟩ := Prod.mk.inj hboth
    exact ⟨row, hrow, hsame, decide_eq_true hlayout⟩
  intro setting hsetting
  rcases List.mem_append.mp hsetting with hnew | hold
  · have hpair := map_pairOf_newRows order hid hparameter ▸ List.mem_map_of_mem hnew
    obtain ⟨key, -, hboth⟩ := List.mem_map.mp hpair
    exact ⟨setting, hsetting, rfl, decide_eq_true (Prod.mk.inj hboth).2.symm⟩
  · obtain ⟨key, hkey⟩ := Option.isSome_iff_exists.mp (h setting hold)
    by_cases hlayout : ∃ other ∈ tuples, ownerOf owner other = key ∧ isLayout other = true
    · obtain ⟨other, hother, hsame, htrue⟩ := hlayout
      exact ⟨other, List.mem_append_right _ hother,
        ((ownerOf_eq_iff h hother).mp hsame).trans hkey.symm, htrue⟩
    · have hlacks : key ∈ newOwners order owner tuples :=
        (mem_newOwners order).mpr ⟨⟨setting, hold, (ownerOf_eq_iff h hold).mpr hkey⟩,
          fun other hother hboth => hlayout ⟨other, hother, hboth⟩⟩
      obtain ⟨row, hrow, hsame, htrue⟩ := howner key hlacks
      exact ⟨row, List.mem_append_left _ hrow, hsame.trans hkey.symm, htrue⟩

end LayoutStep

/-! ### The upgrade as a whole -/

section Whole

variable (order : HashOrder) {version : Version} (dump : Dump version) {schema : Text}

/-- The tables that the steps of a version add rows to. -/
def touched : Version → List Text
  | .v36 => generatedTables
  | .v40 => [diRuntime]
  | .v41 => settingTables.map (·.1)
  | _ => []

/-- The tables of images and settings, which no version leaves out. -/
def modelTables : List Text := di :: diRuntime :: settingTables.map (·.1)

theorem kept_modelTables (version : Version) (h : schema ∈ modelTables) :
    Kept version schema ∧ newColumns version schema = [] := by
  have hall : ∀ version ∈ Version.all, ∀ schema ∈ modelTables,
      (schema ∉ deleted version ∧ schema ∉ restructured version) ∧
        newColumns version schema = [] := by decide
  exact hall version (by cases version <;> decide) schema h

theorem tuplesOf_modelTables (h : schema ∈ modelTables) :
    tuplesOf schema (updated version dump.data) = tuplesOf schema dump.data := by
  obtain ⟨hkept, hcolumns⟩ := kept_modelTables version h
  rw [tuplesOf_kept dump hkept, hcolumns]
  exact List.map_id _

theorem updated_objects (dump : Dump .v36) : ∀ schema ∈ schemaToEnum,
    ∀ entry ∈ updated .v36 dump.data, entry.1 = schema.1 →
      ∀ tuple ∈ entry.2, (tuple (objectId schema.2)).isSome := by
  intro schema hschema entry hentry hsame tuple htuple
  obtain ⟨old, hold, rfl⟩ := List.mem_map.mp hentry
  obtain ⟨before, hbefore, rfl⟩ := List.mem_map.mp htuple
  have hmem := (List.mem_filter.mp hold).1
  obtain ⟨value, hvalue⟩ := Option.isSome_iff_exists.mp
    (dump.objects rfl schema hschema old hmem hsame before hbefore)
  exact Option.isSome_iff_exists.mpr ⟨value, addColumns_of_some dump hmem hbefore hvalue⟩

/-- The data of 3.6: the old properties give way to new rows. -/
theorem upgrade_v36 (dump : Dump .v36) :
    ∃ new : Data, qvdUpgradeDbData order dump.data .v36 =
        (updated .v36 dump.data).filter (fun entry => (schemaToEnum.lookup entry.1).isNone) ++
          new ∧
      ∀ entry ∈ new, entry.1 ∈ generatedTables ∧
        ∀ tuple ∈ entry.2, (keyOf (primaryKey entry.1) tuple).isSome :=
  migrateProperties_eq order (updated_objects dump)

theorem tuplesOf_eq_nil {data : Data} (h : ∀ entry ∈ data, entry.1 ≠ schema) :
    tuplesOf schema data = [] := by
  unfold tuplesOf
  rw [List.filter_eq_nil_iff.mpr fun entry hmem => by simpa using h entry hmem]
  rfl

theorem tuplesOf_filter_isNone {data : Data} (h : (schemaToEnum.lookup schema).isNone) :
    tuplesOf schema (data.filter fun entry => (schemaToEnum.lookup entry.1).isNone) =
      tuplesOf schema data := by
  unfold tuplesOf
  rw [List.filter_filter]
  refine congrArg (List.flatMap _) (List.filter_congr fun entry _ => ?_)
  by_cases hsame : entry.1 = schema
  · simp [hsame, h]
  · simp [hsame]

theorem lookup_isNone_of_notMem (h : schema ∉ restructured .v36) :
    (schemaToEnum.lookup schema).isNone := by
  rw [Option.isNone_iff_eq_none, List.lookup_eq_none_iff]
  intro entry hmem
  refine bne_iff_ne.mpr ?_
  rintro rfl
  exact h (List.mem_map_of_mem hmem)

/-- What no step touches is loaded as it is. -/
theorem tuplesOf_untouched (h : schema ∉ touched version) :
    tuplesOf schema (qvdUpgradeDbData order dump.data version) =
      tuplesOf schema (updated version dump.data) := by
  cases version with
  | common => rfl
  | latest => rfl
  | v36 =>
    obtain ⟨new, hdata, hnew⟩ := upgrade_v36 order dump
    have hnone : (schemaToEnum.lookup schema).isNone :=
      lookup_isNone_of_notMem fun hmem =>
        h (List.mem_cons_of_mem _ (List.mem_cons_of_mem _ hmem))
    have hnil : tuplesOf schema new = [] :=
      tuplesOf_eq_nil fun entry hmem hsame => h (hsame ▸ (hnew entry hmem).1)
    rw [hdata, tuplesOf_append, tuplesOf_filter_isNone hnone, hnil, List.append_nil]
  | v40 => exact tuplesOf_migrateDis_other fun hsame => h (hsame ▸ List.mem_cons_self)
  | v41 =>
    refine tuplesOf_migrateUpSettings_other order fun table htable hsame => h ?_
    exact hsame ▸ List.mem_map_of_mem htable

theorem load_untouched (h : schema ∉ touched version) :
    loadTable schema ⟨[], 1⟩ (tuplesOf schema (qvdUpgradeDbData order dump.data version)) =
      some ⟨tuplesOf schema (updated version dump.data), 1⟩ := by
  rw [tuplesOf_untouched order dump h]
  by_cases hkept : Kept version schema
  · exact load_kept dump hkept
  · have hdeleted : schema ∈ deleted version := by
      by_contra hdeleted
      refine hkept ⟨hdeleted, fun hmem => h ?_⟩
      cases version with
      | v36 => exact List.mem_cons_of_mem _ (List.mem_cons_of_mem _ hmem)
      | _ => cases hmem
    rw [tuplesOf_updated, if_pos hdeleted]
    rfl

theorem known_generatedTables :
    ∀ schema ∈ generatedTables, (sources.lookup schema).isSome := by decide

/-- New rows come after the old ones of their table. -/
theorem load_generated (dump : Dump .v36) (h : schema ∈ generatedTables) :
    ∃ t, loadTable schema ⟨[], 1⟩ (tuplesOf schema (qvdUpgradeDbData order dump.data .v36)) =
        some t ∧
      (Kept .v36 schema → ∀ row ∈ tuplesOf schema (updated .v36 dump.data), row ∈ t.rows) := by
  obtain ⟨new, hdata, hnew⟩ := upgrade_v36 order dump
  have hkeyed : ∀ tuple ∈ tuplesOf schema new, (keyOf (primaryKey schema) tuple).isSome := by
    intro tuple hmem
    obtain ⟨entry, hentry, rfl, htuple⟩ := mem_of_tuplesOf hmem
    exact (hnew entry hentry).2 tuple htuple
  have hload := fun t => load_keyed (fun _ => known_generatedTables schema h) hkeyed t
  rw [hdata, tuplesOf_append, loadTable_append]
  by_cases hmem : schema ∈ restructured .v36
  · have hnone : tuplesOf schema ((updated .v36 dump.data).filter fun entry =>
        (schemaToEnum.lookup entry.1).isNone) = [] := by
      refine tuplesOf_eq_nil fun entry hentry hsame => ?_
      obtain ⟨other, hother, rfl⟩ := List.mem_map.mp hmem
      have hsome := (List.mem_filter.mp hentry).2
      rw [hsame, Option.isNone_iff_eq_none, List.lookup_eq_none_iff] at hsome
      exact absurd (hsome other hother) (by simp)
    rw [hnone]
    exact ⟨_, hload _, fun hkept => absurd hmem hkept.2⟩
  · have hkept : Kept .v36 schema := by
      refine ⟨fun hdeleted => ?_, hmem⟩
      have hnot : ∀ schema ∈ generatedTables, schema ∉ deleted .v36 := by decide
      exact hnot schema h hdeleted
    rw [tuplesOf_filter_isNone (lookup_isNone_of_notMem hmem), load_kept dump hkept,
      Option.bind_some]
    exact ⟨_, hload _, fun _ row hrow => mem_foldl_of_mem hrow⟩

/-- The runtimes of 4.0 are those of the images. -/
theorem load_runtimes (dump : Dump .v40) :
    loadTable diRuntime ⟨[], 1⟩ (tuplesOf diRuntime (qvdUpgradeDbData order dump.data .v40)) =
      some ⟨(tuplesOf di dump.data).map newRuntime, 1⟩ := by
  have hdi : di ∈ modelTables := List.mem_cons_self
  have hkept := (kept_modelTables .v40 hdi).1
  have hnone : ∀ entry ∈ updated .v40 dump.data, entry.1 ≠ diRuntime := by
    intro entry hentry
    obtain ⟨old, hold, rfl⟩ := List.mem_map.mp hentry
    exact dump.runtimes rfl old (List.mem_filter.mp hold).1
  have hdata : tuplesOf diRuntime (qvdUpgradeDbData order dump.data .v40) =
      (tuplesOf di dump.data).map newRuntime :=
    (tuplesOf_migrateDis (nodup_updated _ dump.schemas_nodup) hnone).trans
      (congrArg _ (tuplesOf_modelTables dump hdi))
  have hkeys : ∀ image, keyOf (primaryKey diRuntime) (newRuntime image) =
      keyOf (primaryKey di) image := by
    intro image
    have hkey : primaryKey diRuntime = [diId] ∧ primaryKey di = [id] := by decide
    rw [hkey.1, hkey.2, keyOf_singleton, keyOf_singleton]
    exact congrArg _ (hash_self _ _ _)
  have hkeyed : ∀ tuple ∈ (tuplesOf di dump.data).map newRuntime,
      (keyOf (primaryKey diRuntime) tuple).isSome := by
    intro tuple hmem
    obtain ⟨image, himage, rfl⟩ := List.mem_map.mp hmem
    rw [hkeys]
    rw [← tuplesOf_modelTables dump hdi] at himage
    exact keyed_kept dump hkept image himage
  have hdistinct : (((tuplesOf di dump.data).map newRuntime).map
      (keyOf (primaryKey diRuntime))).Nodup := by
    have hcomp : keyOf (primaryKey diRuntime) ∘ newRuntime = keyOf (primaryKey di) := funext hkeys
    rw [List.map_map, hcomp, ← tuplesOf_modelTables dump hdi]
    exact distinct_kept dump hkept
  rw [hdata, load_keyed (fun _ => by decide) hkeyed,
    foldl_insertNew_of_fresh hdistinct fun _ _ => List.not_mem_nil]
  rfl

/-- Settings have owners and parameters, and no two have the same. -/
theorem settings_spec {table : Text × Text} (htable : table ∈ settingTables) :
    Owned table.2 (tuplesOf table.1 dump.data) ∧
      (∀ tuple ∈ tuplesOf table.1 dump.data, (tuple parameter).isSome) ∧
        ((tuplesOf table.1 dump.data).map (pairOf table.2)).Nodup := by
  unfold tuplesOf
  rcases sections_cases dump.schemas_nodup table.1 with hnone | ⟨entry, hentry, hsame, hone⟩
  · rw [hnone]
    exact ⟨fun _ hmem => (List.not_mem_nil hmem).elim, fun _ hmem => (List.not_mem_nil hmem).elim,
      List.nodup_nil⟩
  · rw [hone, List.flatMap_singleton]
    obtain ⟨hboth, hnodup⟩ := dump.settings table htable entry hentry hsame
    exact ⟨fun tuple hmem => (hboth tuple hmem).1, fun tuple hmem => (hboth tuple hmem).2, hnodup⟩

theorem mem_modelTables {table : Text × Text} (htable : table ∈ settingTables) :
    table.1 ∈ modelTables :=
  List.mem_cons_of_mem _ (List.mem_cons_of_mem _ (List.mem_map_of_mem htable))

/-- The settings of 4.1: the new rows are numbered first. -/
theorem load_layouts (dump : Dump .v41) {table : Text × Text} (htable : table ∈ settingTables) :
    ∃ next, loadTable table.1 ⟨[], 1⟩
        (tuplesOf table.1 (qvdUpgradeDbData order dump.data .v41)) =
      some ⟨settingRows order table.2 (tuplesOf table.1 dump.data), next⟩ := by
  have hmem := mem_modelTables htable
  have hkept := (kept_modelTables .v41 hmem).1
  have hsame := tuplesOf_modelTables dump hmem
  have hnodup := nodup_updated .v41 dump.schemas_nodup
  have hdata : tuplesOf table.1 (qvdUpgradeDbData order dump.data .v41) =
      (newOwners order table.2 (tuplesOf table.1 dump.data)).map (newSetting table.2) ++
        tuplesOf table.1 dump.data := by
    refine (tuplesOf_migrateUpSettings order htable hnodup).trans ?_
    rw [newSettings_eq order hnodup, hsame]
  have hkeyed := keyed_kept dump hkept
  have hdistinct := distinct_kept dump hkept
  rw [(settingTables_spec table htable).2.1, hsame] at hkeyed hdistinct
  rw [hdata]
  exact load_settings order htable hkeyed hdistinct

/-- Every dump is loaded. -/
theorem exists_loaded (schema : Text) : ∃ t, loadTable schema ⟨[], 1⟩
    (tuplesOf schema (qvdUpgradeDbData order dump.data version)) = some t := by
  by_cases h : schema ∈ touched version
  · cases version with
    | common => cases h
    | latest => cases h
    | v36 =>
      obtain ⟨t, ht, -⟩ := load_generated order dump h
      exact ⟨t, ht⟩
    | v40 =>
      rw [List.mem_singleton.mp h]
      exact ⟨_, load_runtimes order dump⟩
    | v41 =>
      obtain ⟨table, htable, rfl⟩ := List.mem_map.mp h
      obtain ⟨next, hnext⟩ := load_layouts order dump htable
      exact ⟨_, hnext⟩
  · exact ⟨_, load_untouched order dump h⟩

variable {order dump} {db : Database}
  (hdb : populateFromData (qvdUpgradeDbData order dump.data version) = some db)

include hdb

theorem rows_untouched (h : schema ∉ touched version) :
    (db schema).rows = tuplesOf schema (updated version dump.data) :=
  congrArg Loaded.rows (Option.some.inj
    ((populateFromData_iff.mp hdb schema).symm.trans (load_untouched order dump h)))

omit hdb in
theorem rows_layouts {dump : Dump .v41} {table : Text × Text}
    (hdb : populateFromData (qvdUpgradeDbData order dump.data .v41) = some db)
    (htable : table ∈ settingTables) :
    (db table.1).rows = settingRows order table.2 (tuplesOf table.1 dump.data) := by
  obtain ⟨next, hnext⟩ := load_layouts order dump htable
  exact congrArg Loaded.rows (Option.some.inj
    ((populateFromData_iff.mp hdb table.1).symm.trans hnext))

omit hdb in
theorem rows_runtimes {dump : Dump .v40}
    (hdb : populateFromData (qvdUpgradeDbData order dump.data .v40) = some db) :
    (db diRuntime).rows = (tuplesOf di dump.data).map newRuntime :=
  congrArg Loaded.rows (Option.some.inj
    ((populateFromData_iff.mp hdb diRuntime).symm.trans (load_runtimes order dump)))

omit hdb in
theorem nodup_column {column : Text} {rows : List Tuple}
    (h : (rows.map (keyOf [column])).Nodup) : (rows.map fun row => row column).Nodup := by
  have hkeys : rows.map (keyOf [column]) =
      (rows.map fun row => row column).map (Option.map fun value => [value]) := by
    rw [List.map_map]
    exact List.map_congr_left fun row _ => keyOf_singleton column row
  rw [hkeys] at h
  exact h.of_map

/-- The rows of the dump stay, those of 4.1 settings if no new setting takes their numbers. -/
theorem keeps_iff : Keeps dump db ↔ (version = .v41 → ∀ table ∈ settingTables,
    FreeIds table.2 (tuplesOf table.1 dump.data)) := by
  have huntouched : ∀ entry ∈ dump.data, Kept version entry.1 → entry.1 ∉ touched version →
      ∀ tuple ∈ entry.2, ∃ row ∈ (db entry.1).rows, ∀ column value,
        tuple column = some value → row column = some value := by
    intro entry hentry hkept h
    rw [rows_untouched hdb h]
    exact keeps_of_mem dump hentry hkept fun _ hrow => hrow
  cases version with
  | common => exact iff_of_true (fun entry hentry hkept =>
      huntouched entry hentry hkept List.not_mem_nil) (fun h => nomatch h)
  | latest => exact iff_of_true (fun entry hentry hkept =>
      huntouched entry hentry hkept List.not_mem_nil) (fun h => nomatch h)
  | v36 =>
    refine iff_of_true (fun entry hentry hkept => ?_) (fun h => nomatch h)
    by_cases h : entry.1 ∈ touched .v36
    · obtain ⟨t, ht, hrows⟩ := load_generated order dump h
      obtain rfl := Option.some.inj ((populateFromData_iff.mp hdb entry.1).symm.trans ht)
      exact keeps_of_mem dump hentry hkept (hrows hkept)
    · exact huntouched entry hentry hkept h
  | v40 =>
    refine iff_of_true (fun entry hentry hkept => ?_) (fun h => nomatch h)
    refine huntouched entry hentry hkept fun h => ?_
    exact dump.runtimes rfl entry hentry (List.mem_singleton.mp h)
  | v41 =>
    constructor
    · intro hkeeps _ table htable
      obtain ⟨-, -, hid, hparameter⟩ := settingTables_spec table htable
      obtain ⟨howned, hnamed, -⟩ := settings_spec dump htable
      refine (keeps_settings_iff order hid hparameter howned hnamed).mp fun tuple htuple => ?_
      obtain ⟨entry, hentry, hsame, hin⟩ := mem_of_tuplesOf htuple
      have hkept := (kept_modelTables .v41 (mem_modelTables htable)).1
      rw [← hsame] at hkept
      obtain ⟨row, hrow, hvalues⟩ := hkeeps entry hentry hkept tuple hin
      rw [hsame, rows_layouts hdb htable] at hrow
      exact ⟨row, hrow, hvalues⟩
    · intro hfree entry hentry hkept tuple htuple
      by_cases h : entry.1 ∈ touched .v41
      · obtain ⟨table, htable, hsame⟩ := List.mem_map.mp h
        obtain ⟨-, -, hid, hparameter⟩ := settingTables_spec table htable
        obtain ⟨howned, hnamed, -⟩ := settings_spec dump htable
        rw [← hsame, rows_layouts hdb htable]
        refine (keeps_settings_iff order hid hparameter howned hnamed).mpr
          (hfree rfl table htable) tuple ?_
        rw [hsame, tuplesOf_of_mem dump.schemas_nodup hentry]
        exact htuple
      · exact huntouched entry hentry hkept h tuple htuple

/-- Every image has a runtime if the dump has them, or is one of 4.0. -/
theorem runtimes_iff : (∀ image ∈ (db di).rows,
    (db diRuntime).rows.countP (fun row => row diId = image id) = 1) ↔
      (version ≠ .v40 → HasRuntimes dump.data) := by
  have hdi : di ∈ modelTables := List.mem_cons_self
  have hruntime : diRuntime ∈ modelTables := List.mem_cons_of_mem _ List.mem_cons_self
  have hfree : ∀ version ∈ Version.all, di ∉ touched version ∧
      (version ≠ .v40 → diRuntime ∉ touched version) := by decide
  obtain ⟨hdiFree, hruntimeFree⟩ := hfree version (by cases version <;> decide)
  have hkeys : primaryKey diRuntime = [diId] ∧ primaryKey di = [id] := by decide
  rw [rows_untouched hdb hdiFree, tuplesOf_modelTables dump hdi]
  by_cases hversion : version = .v40
  · subst hversion
    refine iff_of_true (fun image himage => ?_) (fun h => absurd rfl h)
    have hids := distinct_kept dump (kept_modelTables .v40 hdi).1
    rw [tuplesOf_modelTables dump hdi, hkeys.2] at hids
    have hnodup : (((tuplesOf di dump.data).map newRuntime).map fun row => row diId).Nodup := by
      rw [List.map_map]
      exact nodup_column hids
    rw [rows_runtimes hdb, countP_eq_one_iff hnodup]
    exact ⟨newRuntime image, List.mem_map_of_mem himage, hash_self _ _ _⟩
  · have hids := distinct_kept dump (kept_modelTables version hruntime).1
    rw [tuplesOf_modelTables dump hruntime, hkeys.1] at hids
    rw [rows_untouched hdb (hruntimeFree hversion), tuplesOf_modelTables dump hruntime,
      imp_iff_right hversion]
    exact forall₂_congr fun image _ => countP_eq_one_iff (nodup_column hids) _

/-- Every owner of settings has one kb_layout if the dump has them, or is one of 4.1 that takes no
number of a new row. -/
theorem layouts_of_clean (h : ∀ table ∈ settingTables, version = .v41 →
    FreeIds table.2 (tuplesOf table.1 dump.data)) :
    (∀ table ∈ settingTables, ∀ setting ∈ (db table.1).rows,
      (db table.1).rows.countP (fun row => row table.2 = setting table.2 && isLayout row) = 1) ↔
        (∀ table ∈ settingTables, version ≠ .v41 →
          HasLayouts table.2 (tuplesOf table.1 dump.data)) := by
  refine forall₂_congr fun table htable => ?_
  obtain ⟨-, -, hid, hparameter⟩ := settingTables_spec table htable
  obtain ⟨howned, -, hpairs⟩ := settings_spec dump htable
  by_cases hversion : version = .v41
  · subst hversion
    rw [rows_layouts hdb htable, settingRows_of_free order howned (h table htable rfl),
      layouts_iff (nodup_pairOf order hid hparameter howned hpairs)]
    exact iff_of_true (hasLayouts_newRows order hid hparameter howned) (fun h => absurd rfl h)
  · have hfree : ∀ version ∈ Version.all, version ≠ .v41 →
        ∀ table ∈ settingTables, table.1 ∉ touched version := by decide
    have huntouched := hfree version (by cases version <;> decide) hversion table htable
    rw [rows_untouched hdb huntouched, tuplesOf_modelTables dump (mem_modelTables htable),
      imp_iff_right hversion]
    exact layouts_iff hpairs

omit hdb

theorem clean_iff : Clean dump ↔ (version ≠ .v40 → HasRuntimes dump.data) ∧
    (∀ table ∈ settingTables, version = .v41 →
      FreeIds table.2 (tuplesOf table.1 dump.data)) ∧
    ∀ table ∈ settingTables, version ≠ .v41 →
      HasLayouts table.2 (tuplesOf table.1 dump.data) := by
  refine and_congr_right fun _ => ?_
  rw [← forall₂_and]
  refine forall₂_congr fun table _ => ?_
  by_cases hversion : version = .v41
  · simp [hversion]
  · simp [hversion]

theorem clean_of_upgraded (h : Upgraded order dump) : Clean dump := by
  obtain ⟨db, hdb, hkeeps, hcurrent⟩ := h
  have hfree := fun table htable hversion => (keeps_iff hdb).mp hkeeps hversion table htable
  exact clean_iff.mpr ⟨(runtimes_iff hdb).mp hcurrent.runtimes, hfree,
    (layouts_of_clean hdb hfree).mp hcurrent.layouts⟩

theorem upgraded_of_clean (h : Clean dump) : Upgraded order dump := by
  choose t ht using exists_loaded order dump
  have hdb : populateFromData (qvdUpgradeDbData order dump.data version) = some t :=
    populateFromData_iff.mpr ht
  obtain ⟨hruntimes, hfree, hlayouts⟩ := clean_iff.mp h
  refine ⟨t, hdb, (keeps_iff hdb).mpr fun hversion table htable =>
    hfree table htable hversion, ?_⟩
  exact ⟨(runtimes_iff hdb).mpr hruntimes, (layouts_of_clean hdb hfree).mpr hlayouts⟩

/-- For the accepted versions the data is kept and brought to the current model exactly where the
dump leaves nothing to the steps of other versions and gives no setting the number of a new
one. -/
theorem upgraded_iff (order : HashOrder) :
    (∀ name, qvdVersionUpgradeAvailable name = true ↔ ∃ version : Version, version.name = name) ∧
      ∀ (version : Version) (dump : Dump version), Upgraded order dump ↔ Clean dump := by
  refine ⟨fun name => ?_, fun version dump => ⟨clean_of_upgraded, upgraded_of_clean⟩⟩
  unfold qvdVersionUpgradeAvailable
  rw [List.any_eq_true]
  constructor
  · rintro ⟨version, -, hname⟩
    exact ⟨version, of_decide_eq_true hname⟩
  · rintro ⟨version, hname⟩
    exact ⟨version, by cases version <;> decide, decide_eq_true hname⟩

/-- A dump of 4.1 with one setting. -/
def oneSetting : Tuple :=
  hash [(id, some ['1']), (workspaceId, some ['1']), (parameter, some "fullscreen".toList),
    ("value".toList, some ['1'])]

def settingDump : Dump .v41 where
  data := [(workspaceSetting, [oneSetting])]
  schemas_nodup := List.nodup_singleton _
  known := by decide
  keyed := by
    intro entry hentry _
    rw [List.mem_singleton.mp hentry]
    decide
  distinct := by
    intro entry hentry _
    rw [List.mem_singleton.mp hentry]
    exact List.nodup_singleton _
  fresh := by
    intro entry hentry column hcolumn
    rw [List.mem_singleton.mp hentry] at hcolumn
    cases hcolumn
  settings := by
    intro table htable entry hentry hsame
    obtain rfl := List.mem_singleton.mp hentry
    rcases List.mem_cons.mp htable with rfl | hdesktop
    · exact ⟨by decide, List.nodup_singleton _⟩
    · rw [List.mem_singleton.mp hdesktop] at hsame
      exact absurd hsame (by decide)
  objects := fun h => nomatch h
  runtimes := fun h => nomatch h

/-- The new kb_layout gets the number 1, and the setting 1 is lost. -/
theorem setting_lost : ¬Upgraded (rotated 0) settingDump := by
  intro h
  have hclean := (clean_iff.mp (clean_of_upgraded h)).2.1 (workspaceSetting, workspaceId)
    List.mem_cons_self rfl
  have htuples : tuplesOf workspaceSetting settingDump.data = [oneSetting] := by
    unfold tuplesOf settingDump
    rw [List.filter_singleton]
    rfl
  rw [htuples] at hclean
  exact hclean oneSetting List.mem_cons_self 1 le_rfl (by decide) (by decide)

end Whole

end Qvd.DumpUpgrade
