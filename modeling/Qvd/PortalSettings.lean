import Qvd.PortalParameters
import Qvd.Statements

/-!
The requests that save the settings of a workspace or a desktop of the portal, statement by
statement: what they leave behind when they are done, and when they fail.
-/
namespace Qvd.PortalSettings

open LineText KeyedRows RestFilter PortalParameters Statements

/-! ### The tables -/

section Tables

structure Workspace where
  id : ℕ
  user : ℕ
  name : Text
  fixed : Bool
  active : Bool
deriving DecidableEq

structure Vm where
  id : ℕ
  user : ℕ

structure Desktop where
  id : ℕ
  vm : ℕ
  aliasName : Text
  active : Bool
deriving DecidableEq

/-- A setting with the values of its collection, in the order of their ids. -/
structure Setting where
  value : Text
  list : List Text
deriving DecidableEq

inductive Table
  | workspaceSettings | desktopSettings
deriving DecidableEq

/-- `unique (item_value, setting_id)` of the collection. -/
def Table.uniqueItems : Table → Bool
  | .workspaceSettings => false
  | .desktopSettings => true

/-- The unique columns of a setting. -/
structure Key where
  table : Table
  owner : ℕ
  parameter : Text
deriving DecidableEq

structure Store where
  workspaces : List Workspace
  vms : List Vm
  desktops : List Desktop
  nextDesktop : ℕ
  settings : Key → Option Setting

def Store.put (s : Store) (key : Key) (row : Setting) : Store :=
  { s with settings := Function.update s.settings key (some row) }

def Store.setWorkspace (s : Store) (new : Workspace) : Store :=
  { s with workspaces := s.workspaces.map (fun old => if old.id = new.id then new else old) }

def Store.setDesktop (s : Store) (new : Desktop) : Store :=
  { s with desktops := s.desktops.map (fun old => if old.id = new.id then new else old) }

def Store.addDesktop (s : Store) (new : Desktop) : Store :=
  { s with desktops := s.desktops ++ [new], nextDesktop := s.nextDesktop + 1 }

/-- The workspaces of every user. -/
def Store.deactivated (s : Store) : Store :=
  { s with workspaces := s.workspaces.map (fun ws => { ws with active := false }) }

def Store.hasSettings (s : Store) (table : Table) (owner : ℕ) : Bool :=
  portalParameters.any fun param => (s.settings ⟨table, owner, param⟩).isSome

/-- What the columns take from the values of a request; the database refuses the others. -/
structure Columns where
  text : Json → Option Text
  text_scalar : ∀ {t u}, text (.scalar t) = some u → u = t
  text_null : text .null = none
  name : Json → Option Text
  boolean : Json → Option Bool

end Tables

/-! ### The statements on a setting -/

section Settings

variable (cols : Columns)

/-- The type of the column is an enumeration. -/
def single (key : Key) : Program Store (Option Setting) :=
  statement fun s =>
    if key.parameter ∈ portalParameters then some (s.settings key, s) else none

def createSetting (key : Key) (value : Json) : Program Store Unit :=
  statement fun s =>
    match s.settings key, cols.text value with
    | none, some t =>
      if key.parameter ∈ portalParameters then some ((), s.put key ⟨t, []⟩) else none
    | _, _ => none

/-- An update that changes nothing is not sent. -/
def updateSetting (key : Key) (row : Setting) (value : Json) : Program Store Unit :=
  if cols.text value = some row.value then pure () else
    statement fun s =>
      match s.settings key, cols.text value with
      | some row, some t => some ((), s.put key { row with value := t })
      | _, _ => none

/-- `$setting->collection->delete()`. -/
def deleteItems (key : Key) : Program Store Unit :=
  statement fun s => some ((), ((s.settings key).map fun row =>
    s.put key { row with list := [] }).getD s)

def createItem (key : Key) (item : Json) : Program Store Unit :=
  statement fun s =>
    match s.settings key, cols.text item with
    | some row, some t =>
      if key.table.uniqueItems && row.list.contains t then none
      else some ((), s.put key { row with list := row.list ++ [t] })
    | _, _ => none

def orDie {α : Type} : Option α → Program Store α
  | some a => pure a
  | none => die

/-- `$value->{$key}`. -/
def field : Json → Text → Option Json
  | .null, _ => some .null
  | .hash entries, key => some (get entries key)
  | _, _ => none

/-- `@{$value // []}`. -/
def elements : Json → Option (List Json)
  | .null => some []
  | .array items => some items
  | _ => none

/-- `%{$value}`. -/
def entriesOf : Json → Option (List (Text × Json))
  | .null => some []
  | .hash entries => some entries
  | _ => none

def names (entries : List (Text × Json)) : List Text := (entries.map (·.1)).dedup

/-- A round of the loops. -/
def saveSetting (key : Key) (entry : Json) (write add : Option Setting → Json → Program Store Unit) :
    Program Store Unit := do
  let setting ← single key
  let value ← orDie (field entry "value".toList)
  write setting value
  let items ← orDie ((field entry "list".toList).bind elements)
  items.forM (add setting)

def writeSetting (key : Key) : Option Setting → Json → Program Store Unit
  | none, value => createSetting cols key value
  | some row, value => do
    updateSetting cols key row value
    deleteItems key

/-- The row created is not assigned: `$setting` is undef. -/
def addToFound (key : Key) : Option Setting → Json → Program Store Unit
  | none, _ => die
  | some _, item => createItem cols key item

def saveWorkspaceSetting (id : ℕ) (entries : List (Text × Json)) (param : Text) :
    Program Store Unit :=
  let key : Key := ⟨.workspaceSettings, id, param⟩
  saveSetting key (get entries param) (writeSetting cols key) (addToFound cols key)

/-- The copy for desktops asks whether there is a value. -/
def writeDesktopSetting (key : Key) : Option Setting → Json → Program Store Unit
  | none, value => createSetting cols key value
  | some row, value => do
    (if defined value then updateSetting cols key row value else pure ())
    deleteItems key

/-- And assigns the row created. -/
def addToAny (key : Key) (_ : Option Setting) (item : Json) : Program Store Unit :=
  createItem cols key item

def saveDesktopSetting (id : ℕ) (entries : List (Text × Json)) (param : Text) :
    Program Store Unit :=
  let key : Key := ⟨.desktopSettings, id, param⟩
  saveSetting key (get entries param) (writeDesktopSetting cols key) (addToAny cols key)

end Settings

/-! ### The requests -/

section Requests

variable (cols : Columns) (cls : DigitClass) (order : HashOrder)

inductive Answer
  | error (message : Text) (parameters : List (Text × Text))
  | workspace (row : Workspace) (settings : Option (List (Text × Setting)))
  | desktop (vm : ℕ) (row : Option Desktop) (settings : Option (List (Text × Setting)))

/-- The values of the settings, and their lists; one that is missing is a death. -/
def settingsOf (table : Table) (owner : ℕ) : List Text → Program Store (List (Text × Setting))
  | [] => pure []
  | param :: rest => do
    let first ← single ⟨table, owner, param⟩
    let row ← orDie first
    let second ← single ⟨table, owner, param⟩
    let collection ← orDie second
    let list ← read fun _ => collection.list
    let others ← settingsOf table owner rest
    pure ((param, ⟨row.value, list⟩) :: others)

/-- `element_settings`. -/
def elementSettings (table : Table) (owner : ℕ) :
    Program Store (Option (List (Text × Setting))) := do
  let any ← read fun s => s.hasSettings table owner
  if any then (do
    let settings ← settingsOf table owner (order.keys portalParameters)
    pure (some settings))
  else pure none

/-- The value of a column that is set if it is given. -/
def column {α : Type} (bind : Json → Option α) (given : Json) (old : α) : Option α :=
  if defined given then bind given else some old

def isTrue : Json → Bool
  | .null => false
  | .bool b => b
  | .scalar t => isTrueName t
  | _ => true

def workspaceSyntax (hasSettings : Bool) : Syntax :=
  [("name".toList, ⟨some false, some .string⟩),
    ("active".toList, ⟨some false, some .flag⟩),
    ("settings".toList,
      ⟨some false, some (if hasSettings then .someParameters else .allParameters)⟩)]

def desktopSyntax (hasSettings : Bool) : Syntax :=
  [("alias".toList, ⟨some false, some .string⟩),
    ("settings_enabled".toList, ⟨some false, some .bool⟩),
    ("settings".toList,
      ⟨some (!hasSettings), some (if hasSettings then .someParameters else .allParameters)⟩)]

def newWorkspace (json : List (Text × Json)) (ws : Workspace) : Option Workspace :=
  (column cols.name (get json "name".toList) ws.name).bind fun name =>
    (column cols.boolean (get json "active".toList) ws.active).map fun active =>
      { ws with name := name, active := active }

/-- `unique (user_id, name)`. -/
def nameTaken (new : Workspace) (s : Store) : Bool :=
  s.workspaces.any fun other =>
    other.id != new.id && other.user == new.user && other.name == new.name

def updateWorkspace (json : List (Text × Json)) (ws : Workspace) : Program Store Workspace :=
  match newWorkspace cols json ws with
  | none => statement fun _ => none
  | some new =>
    if new = ws then pure ws else
      statement fun s =>
        if nameTaken new s then none else
          some (new, s.setWorkspace new)

def saveWorkspace (json : List (Text × Json)) (ws : Workspace) : Program Store Answer := do
  (if isTrue (get json "active".toList) && !ws.active then
    statement fun s => some ((), s.deactivated)
  else pure ())
  let saved ← updateWorkspace cols json ws
  let entries ← orDie (entriesOf (get json "settings".toList))
  (order.keys (names entries)).forM (saveWorkspaceSetting cols ws.id entries)
  let settings ← elementSettings order .workspaceSettings ws.id
  pure (.workspace saved settings)

/-- No settings are there and none are given. -/
def activatesEmpty (json : List (Text × Json)) (hasSettings : Bool) : Bool :=
  isTrue (get json "active".toList) && !(hasSettings || defined (get json "settings".toList))

/-- `PUT /api/workspaces/:id`. -/
def putWorkspace (user id : ℕ) (json : List (Text × Json)) : Program Store Answer := do
  let found ← read fun s => s.workspaces.find? fun ws => ws.id == id && ws.user == user
  match found with
  | none => pure (.error "Invalid Workspace".toList [])
  | some ws => do
    let hasSettings ← read fun s => s.hasSettings .workspaceSettings ws.id
    match findInvalidParameter cls json (workspaceSyntax hasSettings) order with
    | none => die
    | some (some finding) => pure (.error finding.message finding.parameters)
    | some none =>
      if activatesEmpty json hasSettings then
        pure (.error "Cannot activate workspaces with no settings".toList [])
      else saveWorkspace cols order json ws

def newDesktop (json : List (Text × Json)) (vm : Vm) (id : ℕ) : Option Desktop → Option Desktop
  | some desktop =>
    (column cols.text (get json "alias".toList) desktop.aliasName).bind fun aliasName =>
      (column cols.boolean (get json "settings_enabled".toList) desktop.active).map fun active =>
        { desktop with aliasName := aliasName, active := active }
  | none =>
    (cols.text (get json "alias".toList)).bind fun aliasName =>
      (column cols.boolean (get json "settings_enabled".toList) false).map fun active =>
        ⟨id, vm.id, aliasName, active⟩

/-- `unique (vm_id, alias)`. -/
def aliasTaken (new : Desktop) (s : Store) : Bool :=
  s.desktops.any fun other =>
    other.id != new.id && other.vm == new.vm && other.aliasName == new.aliasName

/-- The desktop is updated, if something changes, or created. -/
def writeDesktop (json : List (Text × Json)) (vm : Vm) (desktop : Option Desktop) :
    Program Store Desktop :=
  match desktop with
  | some old =>
    if newDesktop cols json vm old.id (some old) = some old then pure old else
      statement fun s =>
        match newDesktop cols json vm old.id (some old) with
        | none => none
        | some new =>
          if aliasTaken new s then none else
            some (new, s.setDesktop new)
  | none =>
    statement fun s =>
      match newDesktop cols json vm s.nextDesktop none with
      | none => none
      | some new =>
        if aliasTaken new s then none else
          some (new, s.addDesktop new)

def desktopOf (s : Store) (vm : Vm) : Option Desktop := s.desktops.find? fun d => d.vm == vm.id

/-- The answer reads the desktop again. -/
def saveDesktop (json : List (Text × Json)) (vm : Vm) (desktop : Option Desktop) :
    Program Store Answer := do
  let saved ← writeDesktop cols json vm desktop
  let entries ← orDie (entriesOf (get json "settings".toList))
  (order.keys (names entries)).forM (saveDesktopSetting cols saved.id entries)
  let shown ← read fun s => desktopOf s vm
  let settings ← (match shown with
    | none => pure none
    | some desktop => elementSettings order .desktopSettings desktop.id)
  pure (.desktop vm.id shown settings)

/-- `PUT /api/desktops/:id`. -/
def putDesktop (user id : ℕ) (json : List (Text × Json)) : Program Store Answer := do
  let found ← read fun s => s.vms.find? fun vm => vm.id == id && vm.user == user
  match found with
  | none => pure (.error "Invalid Desktop".toList [])
  | some vm => do
    let desktop ← read fun s => desktopOf s vm
    let hasSettings ← (match desktop with
      | none => pure false
      | some desktop => read fun s => s.hasSettings .desktopSettings desktop.id)
    match findInvalidParameter cls json (desktopSyntax hasSettings) order with
    | none => die
    | some (some finding) => pure (.error finding.message finding.parameters)
    | some none => saveDesktop cols order json vm desktop

inductive Put
  | workspace (user id : ℕ) (json : List (Text × Json))
  | desktop (user id : ℕ) (json : List (Text × Json))

def put : Put → Program Store Answer
  | .workspace user id json => putWorkspace cols cls order user id json
  | .desktop user id json => putDesktop cols cls order user id json

end Requests

/-! ### What a request asks for -/

section Meaning

variable (cols : Columns) (cls : DigitClass)

/-- A text column holds a value: a string as it is, anything else as the database takes it. -/
def Stored (value : Json) (t : Text) : Prop :=
  match value with
  | .scalar u => t = u
  | _ => cols.text value = some t

/-- A setting has the given value and the given list. -/
def Given (entry : Json) (row : Setting) : Prop :=
  ∃ value items, field entry "value".toList = some value ∧ Stored cols value row.value ∧
    (field entry "list".toList).bind elements = some items ∧
      List.Forall₂ (Stored cols) items row.list

def Valid (json : List (Text × Json)) (syn : Syntax) : Prop :=
  ∀ param ∈ union json syn, Passes cls json syn param

/-- The request is accepted and the database takes the new row of its object: the entries are to
be saved as settings of it. -/
inductive Saves : Put → Store → Table → ℕ → List (Text × Json) → Prop
  | workspace {user id : ℕ} {json : List (Text × Json)} {s : Store} {ws new : Workspace}
      {entries : List (Text × Json)}
      (found : (s.workspaces.find? fun ws => ws.id == id && ws.user == user) = some ws)
      (valid : Valid cls json (workspaceSyntax (s.hasSettings .workspaceSettings ws.id)))
      (settled : activatesEmpty json (s.hasSettings .workspaceSettings ws.id) = false)
      (row : newWorkspace cols json ws = some new)
      (free : new = ws ∨ nameTaken new s = false)
      (settings : entriesOf (get json "settings".toList) = some entries) :
      Saves (.workspace user id json) s .workspaceSettings ws.id entries
  | desktop {user id : ℕ} {json : List (Text × Json)} {s : Store} {vm : Vm} {new : Desktop}
      {entries : List (Text × Json)}
      (found : (s.vms.find? fun vm => vm.id == id && vm.user == user) = some vm)
      (valid : Valid cls json (desktopSyntax ((desktopOf s vm).any fun desktop =>
        s.hasSettings .desktopSettings desktop.id)))
      (row : newDesktop cols json vm ((desktopOf s vm).elim s.nextDesktop (·.id))
        (desktopOf s vm) = some new)
      (free : desktopOf s vm = some new ∨ aliasTaken new s = false)
      (settings : entriesOf (get json "settings".toList) = some entries) :
      Saves (.desktop user id json) s .desktopSettings new.id entries

/-- Each of some settings is there as it is given, and every other one as before. -/
def SavedExactly (table : Table) (owner : ℕ) (entries : List (Text × Json)) (params : List Text)
    (before after : Key → Option Setting) : Prop :=
  (∀ param ∈ params, ∃ row, after ⟨table, owner, param⟩ = some row ∧
    Given cols (get entries param) row) ∧
  ∀ key : Key, ¬(key.table = table ∧ key.owner = owner ∧ key.parameter ∈ params) →
    after key = before key

def Answer.success : Answer → Bool
  | .error _ _ => false
  | _ => true

/-- A request that is done has saved exactly what it asks for; one that is not has saved nothing,
wherever it stopped. -/
def ExactAndAtomic (request : Put) (s : Store) : Prop :=
  ∀ (order : HashOrder) (left : ℕ),
    let (answer, after) := put cols cls order request ⟨left, s⟩
    if answer.any Answer.success then
      ∃ table owner entries, Saves cols cls request s table owner entries ∧
        SavedExactly cols table owner entries (names entries) s.settings after.store.settings
    else after.store.settings = s.settings

/-- Saving a setting cannot change anything: there is no such parameter, its value is refused, or
the setting has this value and no list already, and no list is given or its first item is refused. -/
def Harmless (settings : Key → Option Setting) (key : Key) (entry : Json) : Prop :=
  key.parameter ∈ portalParameters → ∀ t, (field entry "value".toList).bind cols.text = some t →
    settings key = some ⟨t, []⟩ ∧ ∀ first rest,
      (field entry "list".toList).bind elements = some (first :: rest) → cols.text first = none

def AllHarmless (settings : Key → Option Setting) (table : Table) (owner : ℕ)
    (entries : List (Text × Json)) (params : List Text) : Prop :=
  ∀ param ∈ params, Harmless cols settings ⟨table, owner, param⟩ (get entries param)

/-- Every setting that the request comes to save is harmless. -/
def OnlyHarmless (request : Put) (s : Store) : Prop :=
  ∀ table owner entries, Saves cols cls request s table owner entries →
    AllHarmless cols s.settings table owner entries (names entries)

end Meaning

/-! ### A round -/

section Round

variable {cols : Columns} {key : Key} {S : Key → Option Setting} {t : Text} {value : Json}
  {items : List Json} {row : Setting} {s : Store}

theorem stored_of_text (h : cols.text value = some t) : Stored cols value t := by
  cases value with
  | scalar u => exact cols.text_scalar h
  | _ => exact h

/-- The settings after the row of a key is written. -/
abbrev withRow (S : Key → Option Setting) (key : Key) (row : Setting) : Key → Option Setting :=
  Function.update S key (some row)

theorem withRow_self (S : Key → Option Setting) (key : Key) (row : Setting) :
    withRow S key row key = some row := Function.update_self ..

theorem withRow_withRow (S : Key → Option Setting) (key : Key) (row row' : Setting) :
    withRow (withRow S key row) key row' = withRow S key row' := Function.update_idem ..

theorem withRow_eq_self (h : S key = some row) : withRow S key row = S := by
  unfold withRow
  rw [← h, Function.update_eq_self]

theorem createItem_triple (cols : Columns) (S : Key → Option Setting) (key : Key) (t : Text)
    (front : List Json) (item : Json) :
    Triple (fun s => ∃ list, List.Forall₂ (Stored cols) front list ∧
        s.settings = withRow S key ⟨t, list⟩)
      (createItem cols key item)
      (fun _ s => ∃ list, List.Forall₂ (Stored cols) (front ++ [item]) list ∧
        s.settings = withRow S key ⟨t, list⟩) (fun _ => True) := by
  refine Triple.statement ?_ fun _ _ => trivial
  rintro s ⟨⟩ s' ⟨list, hfront, hsettings⟩ hrun
  rw [hsettings, withRow_self] at hrun
  cases htext : cols.text item with
  | none =>
    rw [htext] at hrun
    cases hrun
  | some u =>
    rw [htext] at hrun
    dsimp only at hrun
    split_ifs at hrun with hdup
    cases hrun
    refine ⟨list ++ [u], ?_, ?_⟩
    · exact List.rel_append hfront (.cons (stored_of_text htext) .nil)
    · change withRow s.settings key ⟨t, list ++ [u]⟩ = _
      rw [hsettings, withRow_withRow]

/-- The loop over the items of a list. -/
theorem createItems_triple (cols : Columns) (S : Key → Option Setting) (key : Key) (t : Text)
    (items : List Json) :
    Triple (fun s => s.settings = withRow S key ⟨t, []⟩) (items.forM (createItem cols key))
      (fun _ s => ∃ list, List.Forall₂ (Stored cols) items list ∧
        s.settings = withRow S key ⟨t, list⟩) (fun _ => True) := by
  have hloop : Triple _ (items.forM (createItem cols key)) _ _ :=
    Triple.forM (fun front item _ => createItem_triple cols S key t front item) []
  refine hloop.consequence (fun s hs => ⟨[], .nil, hs⟩) (fun _ s hs => hs) fun _ h => h

theorem updateSetting_triple (hrow : S key = some row) :
    Triple (fun s => s.settings = S) (updateSetting cols key row value)
      (fun _ s => ∃ t, cols.text value = some t ∧ s.settings = withRow S key ⟨t, row.list⟩)
      (fun _ => True) := by
  unfold updateSetting
  split_ifs with hsame
  · refine Triple.pure fun s hs => ⟨row.value, hsame, ?_⟩
    rw [hs, withRow_eq_self hrow]
  · refine Triple.statement ?_ fun _ _ => trivial
    rintro s ⟨⟩ s' hs hrun
    rw [hs, hrow] at hrun
    cases htext : cols.text value with
    | none =>
      rw [htext] at hrun
      cases hrun
    | some t =>
      rw [htext] at hrun
      cases hrun
      refine ⟨t, rfl, ?_⟩
      change withRow s.settings key ⟨t, row.list⟩ = _
      rw [hs]

theorem deleteItems_triple :
    Triple (fun s => ∃ t, cols.text value = some t ∧ s.settings = withRow S key ⟨t, row.list⟩)
      (deleteItems key)
      (fun _ s => ∃ t, cols.text value = some t ∧ s.settings = withRow S key ⟨t, []⟩)
      (fun _ => True) := by
  refine Triple.statement ?_ fun _ _ => trivial
  rintro s ⟨⟩ s' ⟨t, htext, hs⟩ hrun
  refine ⟨t, htext, ?_⟩
  rw [hs, withRow_self] at hrun
  cases hrun
  change withRow s.settings key ⟨t, []⟩ = _
  rw [hs, withRow_withRow]

/-- Written, a setting has the value and no list. -/
theorem writeSetting_triple (cols : Columns) (S : Key → Option Setting) (key : Key)
    (value : Json) :
    Triple (fun s => s.settings = S) (writeSetting cols key (S key) value)
      (fun _ s => ∃ t, cols.text value = some t ∧ s.settings = withRow S key ⟨t, []⟩)
      (fun _ => True) := by
  cases hrow : S key with
  | none =>
    change Triple _ (createSetting cols key value) _ _
    refine Triple.statement ?_ fun _ _ => trivial
    rintro s ⟨⟩ s' hs hrun
    rw [hs, hrow] at hrun
    cases htext : cols.text value with
    | none =>
      rw [htext] at hrun
      cases hrun
    | some t =>
      rw [htext] at hrun
      dsimp only at hrun
      split_ifs at hrun
      cases hrun
      refine ⟨t, rfl, ?_⟩
      change withRow s.settings key ⟨t, []⟩ = _
      rw [hs]
  | some row => exact (updateSetting_triple hrow).bind fun _ => deleteItems_triple

theorem single_triple {E : Store → Prop} (hE : ∀ s, s.settings = S → E s) :
    Triple (fun s => s.settings = S) (single key)
      (fun setting s => (setting = S key ∧ key.parameter ∈ portalParameters) ∧ s.settings = S)
      E := by
  refine Triple.statement (fun s setting s' hs hrun => ?_) hE
  split_ifs at hrun with hparam
  cases hrun
  exact ⟨⟨congrFun hs key, hparam⟩, hs⟩

/-- What the entry of a setting that passed the checks consists of. -/
theorem parts_of_loose {entry : Json} (h : LooseSetting entry) :
    ∃ value items, field entry "value".toList = some value ∧ defined value = true ∧
      (field entry "list".toList).bind elements = some items := by
  obtain ⟨entries, rfl, hvalue, hlist⟩ := h
  obtain hnull | ⟨items, hitems⟩ := hlist
  · exact ⟨get entries "value".toList, [], rfl, hvalue, by rw [field, hnull]; rfl⟩
  · exact ⟨get entries "value".toList, items, rfl, hvalue, by rw [field, hitems]; rfl⟩

/-- What the two copies of the loop's body have in common. -/
structure Copy (cols : Columns) (key : Key)
    (write add : Option Setting → Json → Program Store Unit) : Prop where
  write_eq : ∀ setting value, defined value = true →
    write setting value = writeSetting cols key setting value
  add_found : ∀ row, add (some row) = createItem cols key
  add_new : add none = (fun _ => die) ∨ add none = createItem cols key

theorem workspaceCopy (cols : Columns) (key : Key) :
    Copy cols key (writeSetting cols key) (addToFound cols key) where
  write_eq _ _ _ := rfl
  add_found _ := rfl
  add_new := .inl rfl

theorem desktopCopy (cols : Columns) (key : Key) :
    Copy cols key (writeDesktopSetting cols key) (addToAny cols key) where
  write_eq setting value hdefined := by
    cases setting with
    | none => rfl
    | some row =>
      change ((if defined value then updateSetting cols key row value else pure ()) >>=
        fun _ => deleteItems key) = _
      rw [if_pos hdefined]
      rfl
  add_found _ := rfl
  add_new := .inr rfl

end Round

section Copies

variable {cols : Columns} {key : Key} {entry : Json} {s : Store}
  {write add : Option Setting → Json → Program Store Unit}

/-- A round that is done has saved the setting and nothing else. -/
theorem saveSetting_triple (hcopy : Copy cols key write add)
    (hentry : key.parameter ∈ portalParameters → LooseSetting entry) (S : Key → Option Setting) :
    Triple (fun s => s.settings = S) (saveSetting key entry write add)
      (fun _ s => ∃ row, Given cols entry row ∧ s.settings = withRow S key row)
      (fun _ => True) := by
  refine (single_triple fun _ _ => trivial).bind fun setting => Triple.of_fact ?_
  rintro ⟨rfl, hparam⟩
  obtain ⟨value, items, hvalue, hdefined, hitems⟩ := parts_of_loose (hentry hparam)
  rw [hvalue, hitems]
  change Triple _ (write (S key) value >>= fun _ => items.forM (add (S key))) _ _
  rw [hcopy.write_eq _ _ hdefined]
  refine (writeSetting_triple cols S key value).bind fun _ => Triple.of_exists fun t => ?_
  refine Triple.of_fact fun htext => ?_
  have hgiven {list : List Text} (hlist : List.Forall₂ (Stored cols) items list) :
      Given cols entry ⟨t, list⟩ := ⟨value, items, hvalue, stored_of_text htext, hitems, hlist⟩
  have hcreate : Triple (fun s => s.settings = withRow S key ⟨t, []⟩)
      (items.forM (createItem cols key))
      (fun _ s => ∃ row, Given cols entry row ∧ s.settings = withRow S key row)
      (fun _ => True) := by
    refine (createItems_triple cols S key t items).consequence (fun _ h => h) ?_ fun _ h => h
    rintro _ s ⟨list, hlist, hs⟩
    exact ⟨_, hgiven hlist, hs⟩
  cases hrow : S key with
  | some row =>
    rw [hcopy.add_found]
    exact hcreate
  | none =>
    obtain hdie | hadd := hcopy.add_new
    · rw [hdie]
      cases items with
      | nil => exact Triple.pure fun s hs => ⟨_, hgiven .nil, hs⟩
      | cons item items =>
        exact (Triple.die fun _ _ => trivial).bind fun _ => Triple.of_false
    · rw [hadd]
      exact hcreate

theorem writeSetting_refused (S : Key → Option Setting) {value : Json}
    (h : cols.text value = none) :
    Triple (fun s => s.settings = S) (writeSetting cols key (S key) value) (fun _ _ => False)
      (fun s => s.settings = S) := by
  cases hrow : S key with
  | none =>
    change Triple _ (createSetting cols key value) _ _
    refine Triple.statement (fun s _ s' hs hrun => ?_) fun _ hs => hs
    rw [hs, hrow, h] at hrun
    cases hrun
  | some row =>
    have hupdate : Triple (fun s => s.settings = S) (updateSetting cols key row value)
        (fun _ _ => False) (fun s => s.settings = S) := by
      unfold updateSetting
      rw [if_neg (by rw [h]; exact Option.some_ne_none _ ∘ Eq.symm)]
      refine Triple.statement (fun s _ s' hs hrun => ?_) fun _ hs => hs
      rw [hs, hrow, h] at hrun
      cases hrun
    exact hupdate.bind fun _ => Triple.of_false

/-- A setting that is there already without a list. -/
theorem writeSetting_same {S : Key → Option Setting} {value : Json} {t : Text}
    (htext : cols.text value = some t) (hrow : S key = some ⟨t, []⟩) :
    Triple (fun s => s.settings = S) (writeSetting cols key (S key) value)
      (fun _ s => s.settings = S) (fun s => s.settings = S) := by
  rw [hrow]
  change Triple _ (updateSetting cols key ⟨t, []⟩ value >>= fun _ => deleteItems key) _ _
  unfold updateSetting
  rw [if_pos htext]
  refine Triple.bind (Q := fun _ s => s.settings = S) (Triple.pure fun _ hs => hs) fun _ => ?_
  refine Triple.statement (fun s _ s' hs hrun => ?_) fun _ hs => hs
  rw [hs, hrow] at hrun
  cases hrun
  change withRow s.settings key ⟨t, []⟩ = S
  rw [hs, withRow_eq_self hrow]

/-- A harmless setting is left as it was, whether the round is done or not. -/
theorem saveSetting_harmless (hcopy : Copy cols key write add)
    (hentry : key.parameter ∈ portalParameters → LooseSetting entry) {S : Key → Option Setting}
    (hharmless : Harmless cols S key entry) :
    Triple (fun s => s.settings = S) (saveSetting key entry write add)
      (fun _ s => s.settings = S) (fun s => s.settings = S) := by
  refine (single_triple fun _ hs => hs).bind fun setting => Triple.of_fact ?_
  rintro ⟨rfl, hparam⟩
  obtain ⟨value, items, hvalue, hdefined, hitems⟩ := parts_of_loose (hentry hparam)
  have hgiven := hharmless hparam
  rw [hvalue, hitems] at hgiven
  rw [hvalue, hitems]
  change Triple _ (write (S key) value >>= fun _ => items.forM (add (S key))) _ _
  rw [hcopy.write_eq _ _ hdefined]
  cases htext : cols.text value with
  | none => exact (writeSetting_refused S htext).bind fun _ => Triple.of_false
  | some t =>
    obtain ⟨hrow, hfirst⟩ := hgiven t htext
    refine (writeSetting_same htext hrow).bind fun _ => ?_
    rw [hrow, hcopy.add_found]
    cases items with
    | nil => exact Triple.pure fun _ hs => hs
    | cons first rest =>
      have hrefused : Triple (fun s => s.settings = S) (createItem cols key first)
          (fun _ _ => False) (fun s => s.settings = S) := by
        refine Triple.statement (fun s _ s' hs hrun => ?_) fun _ hs => hs
        rw [hs, hrow, hfirst first rest rfl] at hrun
        cases hrun
      exact hrefused.bind fun _ => Triple.of_false

theorem single_gives (hparam : key.parameter ∈ portalParameters) :
    Gives (single key) s (s.settings key) s :=
  Gives.statement (by rw [if_pos hparam])

theorem createItem_idle (key : Key) (item : Json) : Idle (createItem cols key item) :=
  (Stuck.statement _).idle

theorem Copy.idle_add (hcopy : Copy cols key write add) (setting : Option Setting) (item : Json) :
    Idle (add setting item) := by
  cases setting with
  | some row =>
    rw [hcopy.add_found]
    exact createItem_idle key item
  | none =>
    obtain hdie | hadd := hcopy.add_new
    · rw [hdie]
      exact Idle.die
    · rw [hadd]
      exact createItem_idle key item

theorem put_settings (s : Store) (key : Key) (row : Setting) :
    (s.put key row).settings key = some row := withRow_self s.settings key row

theorem put_put (s : Store) (key : Key) (row row' : Setting) :
    (s.put key row).put key row' = s.put key row' :=
  congrArg (fun settings => { s with settings := settings }) (withRow_withRow s.settings key row row')

theorem put_ne {row : Setting} (h : s.settings key ≠ some row) :
    (s.put key row).settings ≠ s.settings := fun hsame =>
  h (by rw [← hsame]; exact put_settings s key row)

/-- What is written of a setting that is not there yet, or that has another value or a list. -/
theorem writeSetting_reaches {value : Json} {t : Text} (htext : cols.text value = some t)
    (hparam : key.parameter ∈ portalParameters) (hother : s.settings key ≠ some ⟨t, []⟩) :
    Reaches (writeSetting cols key (s.settings key) value) s
      (fun s' => s'.settings ≠ s.settings) := by
  cases hrow : s.settings key with
  | none =>
    change Reaches (createSetting cols key value) s _
    have hcreate : Gives (createSetting cols key value) s () (s.put key ⟨t, []⟩) := by
      refine Gives.statement ?_
      rw [hrow, htext]
      exact if_pos hparam
    exact hcreate.reaches (put_ne hother)
  | some row =>
    change Reaches (updateSetting cols key row value >>= fun _ => deleteItems key) s _
    by_cases hvalue : t = row.value
    · have hupdate : Gives (updateSetting cols key row value) s () s := by
        unfold updateSetting
        rw [if_pos (by rw [htext, hvalue])]
        exact Gives.pure () s
      refine Reaches.bind_right hupdate ?_
      have hdelete : Gives (deleteItems key) s () (s.put key ⟨t, []⟩) := by
        refine Gives.statement ?_
        rw [hrow, hvalue]
        rfl
      exact hdelete.reaches (put_ne hother)
    · have hupdate : Gives (updateSetting cols key row value) s ()
          (s.put key ⟨t, row.list⟩) := by
        unfold updateSetting
        rw [if_neg (by rw [htext]; exact fun h => hvalue (Option.some.inj h))]
        exact Gives.statement (by rw [hrow, htext])
      have hchanged : s.settings key ≠ some ⟨t, row.list⟩ := by
        rw [hrow]
        exact fun h => hvalue (congrArg Setting.value (Option.some.inj h)).symm
      exact (hupdate.reaches (put_ne hchanged)).bind_left fun _ => (Stuck.statement _).idle

theorem writeSetting_gives {value : Json} {t : Text} (htext : cols.text value = some t)
    (hrow : s.settings key = some ⟨t, []⟩) :
    Gives (writeSetting cols key (s.settings key) value) s () (s.put key ⟨t, []⟩) := by
  rw [hrow]
  change Gives (updateSetting cols key ⟨t, []⟩ value >>= fun _ => deleteItems key) s _ _
  unfold updateSetting
  rw [if_pos htext]
  refine (Gives.pure () s).bind (Gives.statement ?_)
  rw [hrow]
  rfl

/-- A setting that is not harmless: the round can be stopped after a change. -/
theorem saveSetting_reaches (hcopy : Copy cols key write add)
    (hentry : key.parameter ∈ portalParameters → LooseSetting entry)
    (hharmless : ¬Harmless cols s.settings key entry) :
    Reaches (saveSetting key entry write add) s (fun s' => s'.settings ≠ s.settings) := by
  unfold Harmless at hharmless
  push Not at hharmless
  obtain ⟨hparam, t, htext, hother⟩ := hharmless
  obtain ⟨value, items, hvalue, hdefined, hitems⟩ := parts_of_loose (hentry hparam)
  rw [hitems] at hother
  rw [hvalue] at htext
  replace htext : cols.text value = some t := htext
  refine Reaches.bind_right (single_gives hparam) ?_
  rw [hvalue, hitems]
  change Reaches (write (s.settings key) value >>= fun _ => items.forM (add (s.settings key))) s _
  rw [hcopy.write_eq _ _ hdefined]
  by_cases hrow : s.settings key = some ⟨t, []⟩
  · obtain ⟨first, rest, hlist, hfirst⟩ := hother hrow
    obtain ⟨u, hu⟩ := Option.ne_none_iff_exists'.mp hfirst
    cases hlist
    refine Reaches.bind_right (writeSetting_gives htext hrow) ?_
    rw [hrow, hcopy.add_found]
    have hcreate : Gives (createItem cols key first) (s.put key ⟨t, []⟩) ()
        (s.put key ⟨t, [u]⟩) := by
      refine Gives.statement ?_
      rw [put_settings, hu]
      change (if (key.table.uniqueItems && false) = true then none else
        some ((), (s.put key ⟨t, []⟩).put key ⟨t, [u]⟩)) = _
      rw [Bool.and_false, put_put]
      rfl
    have hchanged : (s.put key ⟨t, [u]⟩).settings ≠ s.settings := by
      refine put_ne ?_
      rw [hrow]
      exact fun h => nomatch congrArg Setting.list (Option.some.inj h)
    exact (hcreate.reaches hchanged).bind_left fun _ =>
      Idle.forM (fun item => createItem_idle key item) rest
  · exact (writeSetting_reaches htext hparam hrow).bind_left fun _ =>
      Idle.forM (fun item => hcopy.idle_add _ item) items

end Copies

/-! ### The loops -/

section Loops

variable {cols : Columns} {cls : DigitClass} {table : Table} {owner : ℕ}
  {entries : List (Text × Json)} {params : List Text} {S : Key → Option Setting}

theorem savedExactly_append {front : List Text} {param : Text} {row : Setting}
    {after : Key → Option Setting} (h : SavedExactly cols table owner entries front S after)
    (hgiven : Given cols (get entries param) row) :
    SavedExactly cols table owner entries (front ++ [param]) S
      (withRow after ⟨table, owner, param⟩ row) := by
  constructor
  · intro other hother
    by_cases hsame : other = param
    · subst hsame
      exact ⟨row, withRow_self .., hgiven⟩
    · have hfront : other ∈ front := by simpa [hsame] using hother
      obtain ⟨row', hrow', hgiven'⟩ := h.1 other hfront
      refine ⟨row', ?_, hgiven'⟩
      rw [← hrow']
      exact Function.update_of_ne (fun heq => hsame (congrArg Key.parameter heq)) _ _
  · intro key hkey
    have hne : key ≠ ⟨table, owner, param⟩ := by
      rintro rfl
      exact hkey ⟨rfl, rfl, by simp⟩
    refine (Function.update_of_ne hne _ _).trans (h.2 key fun hin => hkey ?_)
    exact ⟨hin.1, hin.2.1, List.mem_append_left _ hin.2.2⟩

/-- The rounds of either loop. -/
def Rounds (cols : Columns) (table : Table) (owner : ℕ) (entries : List (Text × Json))
    (save : Text → Program Store Unit) : Prop :=
  ∀ param, ∃ write add, Copy cols ⟨table, owner, param⟩ write add ∧
    save param = saveSetting ⟨table, owner, param⟩ (get entries param) write add

theorem workspaceRounds (cols : Columns) (id : ℕ) (entries : List (Text × Json)) :
    Rounds cols .workspaceSettings id entries (saveWorkspaceSetting cols id entries) :=
  fun _ => ⟨_, _, workspaceCopy cols _, rfl⟩

theorem desktopRounds (cols : Columns) (id : ℕ) (entries : List (Text × Json)) :
    Rounds cols .desktopSettings id entries (saveDesktopSetting cols id entries) :=
  fun _ => ⟨_, _, desktopCopy cols _, rfl⟩

variable {save : Text → Program Store Unit}

/-- A round in a loop whose settings are all harmless, if they are. -/
theorem round_safe (hrounds : Rounds cols table owner entries save) {param : Text}
    (hmem : param ∈ params)
    (hloose : param ∈ portalParameters → LooseSetting (get entries param)) {s : Store}
    (hkept : AllHarmless cols S table owner entries params → s.settings = S) :
    Triple (fun s' => s'.settings = s.settings) (save param)
      (fun _ s' => AllHarmless cols S table owner entries params → s'.settings = S)
      (fun s' => AllHarmless cols S table owner entries params → s'.settings = S) := by
  by_cases hall : AllHarmless cols S table owner entries params
  · obtain ⟨write, add, hcopy, hsave⟩ := hrounds param
    rw [hkept hall, hsave]
    exact (saveSetting_harmless hcopy hloose (hall param hmem)).consequence
      (fun _ h => h) (fun _ _ h _ => h) fun _ h _ => h
  · exact Triple.of_post (fun _ _ h => absurd h hall) fun _ h => absurd h hall

/-- The loop over the settings of a request: all of them are saved if it is done, and if all are
harmless nothing changes wherever it stops. -/
theorem settings_triple (hrounds : Rounds cols table owner entries save)
    (hloose : ∀ param ∈ params, param ∈ portalParameters → LooseSetting (get entries param)) :
    Triple (fun s => s.settings = S) (params.forM save)
      (fun _ s => SavedExactly cols table owner entries params S s.settings ∧
        (AllHarmless cols S table owner entries params → s.settings = S))
      (fun s => AllHarmless cols S table owner entries params → s.settings = S) := by
  have hloop : Triple
      (fun s => SavedExactly cols table owner entries [] S s.settings ∧
        (AllHarmless cols S table owner entries params → s.settings = S))
      (params.forM save)
      (fun _ s => SavedExactly cols table owner entries ([] ++ params) S s.settings ∧
        (AllHarmless cols S table owner entries params → s.settings = S))
      (fun s => AllHarmless cols S table owner entries params → s.settings = S) := by
    refine Triple.forM (I := fun front (s : Store) =>
      SavedExactly cols table owner entries front S s.settings ∧
        (AllHarmless cols S table owner entries params → s.settings = S)) ?_ []
    intro front param hmem
    refine Triple.of_store fun s ⟨hsaved, hkept⟩ => ?_
    have hsafe := round_safe hrounds hmem (hloose param hmem) hkept
    obtain ⟨write, add, hcopy, hsave⟩ := hrounds param
    have hstep := saveSetting_triple hcopy (hloose param hmem) s.settings
    rw [← hsave] at hstep
    refine (hstep.and hsafe).consequence (fun s' hs' => congrArg Store.settings hs') ?_
      fun _ h => h.2
    rintro _ s' ⟨⟨row, hgiven, hs'⟩, hall⟩
    refine ⟨?_, hall⟩
    rw [hs']
    exact savedExactly_append hsaved hgiven
  refine hloop.consequence ?_ (fun _ s hs => hs) fun _ hs => hs
  intro s hs
  exact ⟨⟨fun _ h => absurd h List.not_mem_nil, fun key _ => congrFun hs key⟩, fun _ => hs⟩

theorem round_stuck (hrounds : Rounds cols table owner entries save) (param : Text) :
    Stuck (save param) := by
  obtain ⟨write, add, -, hsave⟩ := hrounds param
  rw [hsave]
  exact (Stuck.statement _).bind_left

/-- A loop that begins with a setting that is not harmless can be stopped after a change. -/
theorem settings_reaches (hrounds : Rounds cols table owner entries save) {param : Text}
    {rest : List Text} {s : Store}
    (hloose : param ∈ portalParameters → LooseSetting (get entries param))
    (hharmless : ¬Harmless cols s.settings ⟨table, owner, param⟩ (get entries param)) :
    Reaches ((param :: rest).forM save) s (fun s' => s'.settings ≠ s.settings) := by
  have hfirst : Reaches (save param) s (fun s' => s'.settings ≠ s.settings) := by
    obtain ⟨write, add, hcopy, hsave⟩ := hrounds param
    rw [hsave]
    exact saveSetting_reaches hcopy hloose hharmless
  exact hfirst.bind_left fun _ => Idle.forM (fun param => (round_stuck hrounds param).idle) rest

end Loops

/-! ### The requests -/

section Handlers

variable {cols : Columns} {cls : DigitClass} {order : HashOrder} {json : List (Text × Json)}
  {syn : Syntax} {s : Store}

theorem valid_iff : findInvalidParameter cls json syn order = some none ↔ Valid cls json syn := by
  unfold findInvalidParameter Valid
  rw [firstInvalid_iff]
  exact forall_congr' fun param => by rw [(order.perm _).mem_iff]

/-- The settings that are saved passed the checks. -/
theorem loose_of_valid {entries : List (Text × Json)} (hvalid : Valid cls json syn)
    (hdeclared : (syn.lookup "settings".toList).isSome)
    (htype : typeOf syn "settings".toList = .someParameters ∨
      typeOf syn "settings".toList = .allParameters)
    (hentries : entriesOf (get json "settings".toList) = some entries) :
    ∀ param ∈ names entries, param ∈ portalParameters → LooseSetting (get entries param) := by
  intro param hmem hparam
  have hunion : "settings".toList ∈ union json syn := by
    obtain ⟨entry, hentry⟩ := Option.isSome_iff_exists.mp hdeclared
    obtain ⟨front, back, rfl, -⟩ := List.lookup_eq_some_iff.mp hentry
    unfold union
    rw [List.mem_dedup]
    simp
  cases hgiven : get json "settings".toList with
  | hash given =>
    rw [hgiven] at hentries
    cases hentries
    have hchecked := (hvalid _ hunion).2 (by rw [hgiven]; rfl)
    rw [hgiven] at hchecked
    obtain hsome | hall := htype
    · rw [hsome] at hchecked
      replace hchecked : checkSomeParameters (.hash entries) = some true := hchecked
      obtain ⟨_, hsame, -, hloose⟩ := checkSomeParameters_iff.mp hchecked
      cases hsame
      exact (hloose param (List.mem_dedup.mp hmem)).2
    · rw [hall] at hchecked
      replace hchecked : checkAllParameters (.hash entries) = some true := hchecked
      obtain ⟨_, hsame, hloose⟩ := checkAllParameters_iff.mp hchecked
      cases hsame
      exact hloose param hparam
  | null =>
    rw [hgiven] at hentries
    cases hentries
    cases hmem
  | bool | scalar | array =>
    rw [hgiven] at hentries
    cases hentries

theorem settings_type (has : Bool) :
    typeOf (workspaceSyntax has) "settings".toList = .someParameters ∨
      typeOf (workspaceSyntax has) "settings".toList = .allParameters := by
  cases has
  · exact .inr rfl
  · exact .inl rfl

theorem desktop_settings_type (has : Bool) :
    typeOf (desktopSyntax has) "settings".toList = .someParameters ∨
      typeOf (desktopSyntax has) "settings".toList = .allParameters := by
  cases has
  · exact .inr rfl
  · exact .inl rfl

/-- Reads only. -/
theorem settingsOf_triple (table : Table) (owner : ℕ) (params : List Text) (J : Store → Prop) :
    Triple J (settingsOf table owner params) (fun _ => J) J := by
  have hsingle (key : Key) : Triple J (single key) (fun _ => J) J := by
    refine Triple.statement (fun s setting s' hs hrun => ?_) fun _ hs => hs
    split_ifs at hrun
    cases hrun
    exact hs
  have hdie {α : Type} (value : Option α) : Triple J (orDie value) (fun _ => J) J := by
    cases value with
    | none => exact Triple.die fun _ hs => hs
    | some a => exact Triple.pure fun _ hs => hs
  induction params with
  | nil => exact Triple.pure fun _ hs => hs
  | cons param params ih =>
    refine (hsingle _).bind fun first => (hdie first).bind fun row => ?_
    refine (hsingle _).bind fun second => (hdie second).bind fun collection => ?_
    refine (Triple.read (Q := fun _ => J) (fun _ hs => hs) fun _ hs => hs).bind fun list => ?_
    exact ih.bind fun others => Triple.pure fun _ hs => hs

theorem elementSettings_triple (order : HashOrder) (table : Table) (owner : ℕ)
    (J : Store → Prop) :
    Triple J (elementSettings order table owner) (fun _ => J) J := by
  refine (Triple.read (Q := fun _ => J) (fun _ hs => hs) fun _ hs => hs).bind fun any => ?_
  cases any
  · exact Triple.pure fun _ hs => hs
  · exact (settingsOf_triple table owner _ J).bind fun _ => Triple.pure fun _ hs => hs

/-- What is left of a request: done, it has saved exactly what it asks for, or has refused it. -/
def Settled (cols : Columns) (cls : DigitClass) (request : Put) (s : Store) (answer : Answer)
    (s' : Store) : Prop :=
  if answer.success then ∃ table owner entries, Saves cols cls request s table owner entries ∧
    SavedExactly cols table owner entries (names entries) s.settings s'.settings
  else s'.settings = s.settings

/-- A request that died, if it had only harmless settings to save. -/
def Untouched (cols : Columns) (cls : DigitClass) (request : Put) (s s' : Store) : Prop :=
  OnlyHarmless cols cls request s → s'.settings = s.settings

variable {request : Put} {table : Table} {owner : ℕ} {entries : List (Text × Json)}
  {save : Text → Program Store Unit}

theorem loop_triple (hsaves : Saves cols cls request s table owner entries)
    (hrounds : Rounds cols table owner entries save)
    (hloose : ∀ param ∈ names entries, param ∈ portalParameters →
      LooseSetting (get entries param)) :
    Triple (fun s' => s'.settings = s.settings) ((order.keys (names entries)).forM save)
      (fun _ s' => SavedExactly cols table owner entries (names entries) s.settings s'.settings ∧
        Untouched cols cls request s s')
      (Untouched cols cls request s) := by
  have hmem (param : Text) : param ∈ order.keys (names entries) ↔ param ∈ names entries :=
    (order.perm _).mem_iff
  have hall (hharmless : OnlyHarmless cols cls request s) :
      AllHarmless cols s.settings table owner entries (order.keys (names entries)) :=
    fun param hparam => hharmless _ _ _ hsaves param ((hmem param).mp hparam)
  refine (settings_triple hrounds fun param hparam => hloose param ((hmem param).mp hparam)
    ).consequence (fun _ h => h) ?_ ?_
  · rintro _ s' ⟨⟨hsaved, hother⟩, hsafe⟩
    refine ⟨⟨fun param hparam => hsaved param ((hmem param).mpr hparam), fun key hkey => ?_⟩,
      fun hharmless => hsafe (hall hharmless)⟩
    exact hother key fun hin => hkey ⟨hin.1, hin.2.1, (hmem _).mp hin.2.2⟩
  · exact fun s' hsafe hharmless => hsafe (hall hharmless)

/-- A program in front that leaves the settings alone. -/
def Spares {α : Type} (p : Program Store α) (s : Store) (Q : α → Prop) : Prop :=
  Triple (fun s' => s'.settings = s.settings) p (fun a s' => Q a ∧ s'.settings = s.settings)
    (fun s' => s'.settings = s.settings)

theorem orDie_triple {α : Type} (value : Option α) (s : Store) :
    Spares (orDie value) s (fun a => value = some a) := by
  cases value with
  | none => exact Triple.die fun _ hs => hs
  | some a => exact Triple.pure fun _ hs => ⟨rfl, hs⟩

theorem nameTaken_deactivated (new : Workspace) (s : Store) :
    nameTaken new s.deactivated = nameTaken new s := by
  unfold nameTaken Store.deactivated
  rw [List.any_map]
  rfl

/-- The row of a workspace is written, or refused. -/
theorem updateWorkspace_triple (ws : Workspace) :
    Triple (fun s' => s' = s ∨ s' = s.deactivated) (updateWorkspace cols json ws)
      (fun new s' => (newWorkspace cols json ws = some new ∧
        (new = ws ∨ nameTaken new s = false)) ∧ s'.settings = s.settings)
      (fun s' => s'.settings = s.settings) := by
  have hsettings {s' : Store} (hs' : s' = s ∨ s' = s.deactivated) :
      s'.settings = s.settings := by
    obtain rfl | rfl := hs'
    · rfl
    · rfl
  unfold updateWorkspace
  cases hnew : newWorkspace cols json ws with
  | none => exact Triple.statement (fun _ _ _ _ h => nomatch h) fun _ => hsettings
  | some new =>
    dsimp only
    split_ifs with hsame
    · exact Triple.pure fun s' hs' => ⟨⟨congrArg some hsame, .inl rfl⟩, hsettings hs'⟩
    · refine Triple.statement (fun s' a s'' hs' hrun => ?_) fun _ => hsettings
      split_ifs at hrun with htaken
      cases hrun
      have hkept := hsettings hs'
      refine ⟨⟨rfl, .inr ?_⟩, hkept⟩
      obtain rfl | rfl := hs'
      · exact Bool.eq_false_iff.mpr htaken
      · rw [nameTaken_deactivated] at htaken
        exact Bool.eq_false_iff.mpr htaken

theorem saveWorkspace_triple {user id : ℕ} {ws : Workspace}
    (hfound : (s.workspaces.find? fun ws => ws.id == id && ws.user == user) = some ws)
    (hvalid : Valid cls json (workspaceSyntax (s.hasSettings .workspaceSettings ws.id)))
    (hsettled : activatesEmpty json (s.hasSettings .workspaceSettings ws.id) = false) :
    Triple (fun s' => s' = s) (saveWorkspace cols order json ws)
      (Settled cols cls (.workspace user id json) s)
      (Untouched cols cls (.workspace user id json) s) := by
  have hdies (s' : Store) (hs' : s'.settings = s.settings) :
      Untouched cols cls (.workspace user id json) s s' := fun _ => hs'
  have hdeactivate : Triple (fun s' => s' = s)
      (if isTrue (get json "active".toList) && !ws.active then
        statement fun s => some ((), s.deactivated) else pure ())
      (fun _ s' => s' = s ∨ s' = s.deactivated) (Untouched cols cls (.workspace user id json) s) := by
    split_ifs
    · refine Triple.statement (fun s' _ s'' hs' hrun => ?_)
        fun s' hs' => hdies s' (congrArg Store.settings hs')
      cases hrun
      rw [hs']
      exact .inr rfl
    · exact Triple.pure fun _ hs' => .inl hs'
  refine hdeactivate.bind fun _ => ?_
  refine ((updateWorkspace_triple ws).consequence (fun _ h => h) (fun _ _ h => h) hdies).bind
    fun new => Triple.of_fact ?_
  rintro ⟨hrow, hfree⟩
  refine ((orDie_triple _ s).consequence (fun _ h => h) (fun _ _ h => h) hdies).bind
    fun entries => Triple.of_fact fun hentries => ?_
  have hloose := loose_of_valid hvalid rfl (settings_type _) hentries
  have hsaves : Saves cols cls (.workspace user id json) s .workspaceSettings ws.id entries :=
    .workspace hfound hvalid hsettled hrow hfree hentries
  refine (loop_triple hsaves (workspaceRounds cols ws.id entries) hloose).bind fun _ => ?_
  refine ((elementSettings_triple order _ _ _).consequence (fun _ h => h) (fun _ _ h => h)
    fun _ h => h.2).bind fun settings => Triple.pure fun s' hs' => ?_
  exact ⟨_, _, _, hsaves, hs'.1⟩

theorem putWorkspace_triple (user id : ℕ) (json : List (Text × Json)) (s : Store) :
    Triple (fun s' => s' = s) (putWorkspace cols cls order user id json)
      (Settled cols cls (.workspace user id json) s)
      (Untouched cols cls (.workspace user id json) s) := by
  have hdies (s' : Store) (hs' : s' = s) : Untouched cols cls (.workspace user id json) s s' :=
    fun _ => congrArg Store.settings hs'
  have hrefuses (message : Text) (parameters : List (Text × Text)) :
      Triple (fun s' => s' = s) (pure (.error message parameters))
        (Settled cols cls (.workspace user id json) s)
        (Untouched cols cls (.workspace user id json) s) :=
    Triple.pure fun s' hs' => congrArg Store.settings hs'
  refine (Triple.read_eq hdies).bind fun found => Triple.of_fact ?_
  rintro rfl
  cases hfound : s.workspaces.find? fun ws => ws.id == id && ws.user == user with
  | none => exact hrefuses _ _
  | some ws =>
    refine (Triple.read_eq hdies).bind fun has => Triple.of_fact ?_
    rintro rfl
    cases hinvalid : findInvalidParameter cls json
      (workspaceSyntax (s.hasSettings .workspaceSettings ws.id)) order with
    | none => exact Triple.die hdies
    | some finding =>
      cases finding with
      | some finding => exact hrefuses _ _
      | none =>
        dsimp only
        split_ifs with hempty
        · exact hrefuses _ _
        · exact saveWorkspace_triple hfound (valid_iff.mp hinvalid) (Bool.eq_false_iff.mpr hempty)

/-- The row of a desktop is written, or refused. -/
theorem writeDesktop_triple (vm : Vm) :
    Triple (fun s' => s' = s) (writeDesktop cols json vm (desktopOf s vm))
      (fun new s' => (newDesktop cols json vm ((desktopOf s vm).elim s.nextDesktop (·.id))
        (desktopOf s vm) = some new ∧ (desktopOf s vm = some new ∨ aliasTaken new s = false)) ∧
          s'.settings = s.settings)
      (fun s' => s'.settings = s.settings) := by
  have hdies (s' : Store) (hs' : s' = s) : s'.settings = s.settings := congrArg Store.settings hs'
  unfold writeDesktop
  cases desktopOf s vm with
  | none =>
    refine Triple.statement (fun s' new s'' hs' hrun => ?_) hdies
    subst hs'
    cases hnew : newDesktop cols json vm s'.nextDesktop none with
    | none =>
      rw [hnew] at hrun
      cases hrun
    | some made =>
      rw [hnew] at hrun
      dsimp only at hrun
      split_ifs at hrun with htaken
      cases hrun
      exact ⟨⟨hnew, .inr (Bool.eq_false_iff.mpr htaken)⟩, rfl⟩
  | some old =>
    dsimp only
    split_ifs with hsame
    · exact Triple.pure fun s' hs' => ⟨⟨hsame, .inl rfl⟩, hdies s' hs'⟩
    · refine Triple.statement (fun s' new s'' hs' hrun => ?_) hdies
      subst hs'
      cases hnew : newDesktop cols json vm old.id (some old) with
      | none =>
        rw [hnew] at hrun
        cases hrun
      | some made =>
        rw [hnew] at hrun
        dsimp only at hrun
        split_ifs at hrun with htaken
        cases hrun
        exact ⟨⟨hnew, .inr (Bool.eq_false_iff.mpr htaken)⟩, rfl⟩

theorem saveDesktop_triple {user id : ℕ} {vm : Vm}
    (hfound : (s.vms.find? fun vm => vm.id == id && vm.user == user) = some vm)
    (hvalid : Valid cls json (desktopSyntax ((desktopOf s vm).any fun desktop =>
      s.hasSettings .desktopSettings desktop.id))) :
    Triple (fun s' => s' = s) (saveDesktop cols order json vm (desktopOf s vm))
      (Settled cols cls (.desktop user id json) s)
      (Untouched cols cls (.desktop user id json) s) := by
  have hdies (s' : Store) (hs' : s'.settings = s.settings) :
      Untouched cols cls (.desktop user id json) s s' := fun _ => hs'
  refine ((writeDesktop_triple vm).consequence (fun _ h => h) (fun _ _ h => h) hdies).bind
    fun new => Triple.of_fact ?_
  rintro ⟨hrow, hfree⟩
  refine ((orDie_triple _ s).consequence (fun _ h => h) (fun _ _ h => h) hdies).bind
    fun entries => Triple.of_fact fun hentries => ?_
  have hloose := loose_of_valid hvalid rfl (desktop_settings_type _) hentries
  have hsaves : Saves cols cls (.desktop user id json) s .desktopSettings new.id entries :=
    .desktop hfound hvalid hrow hfree hentries
  refine (loop_triple hsaves (desktopRounds cols new.id entries) hloose).bind fun _ => ?_
  have hread : Triple
      (fun s' => SavedExactly cols .desktopSettings new.id entries (names entries) s.settings
        s'.settings ∧ Untouched cols cls (.desktop user id json) s s')
      (Statements.read fun s => desktopOf s vm)
      (fun _ s' => SavedExactly cols .desktopSettings new.id entries (names entries) s.settings
        s'.settings ∧ Untouched cols cls (.desktop user id json) s s')
      (Untouched cols cls (.desktop user id json) s) :=
    Triple.read (fun _ h => h) fun _ h => h.2
  refine hread.bind fun shown => ?_
  cases shown with
  | none => exact Triple.pure fun s' hs' => ⟨_, _, _, hsaves, hs'.1⟩
  | some desktop =>
    refine ((elementSettings_triple order _ _ _).consequence (fun _ h => h) (fun _ _ h => h)
      fun _ h => h.2).bind fun settings => Triple.pure fun s' hs' => ?_
    exact ⟨_, _, _, hsaves, hs'.1⟩

theorem putDesktop_triple (user id : ℕ) (json : List (Text × Json)) (s : Store) :
    Triple (fun s' => s' = s) (putDesktop cols cls order user id json)
      (Settled cols cls (.desktop user id json) s)
      (Untouched cols cls (.desktop user id json) s) := by
  have hdies (s' : Store) (hs' : s' = s) : Untouched cols cls (.desktop user id json) s s' :=
    fun _ => congrArg Store.settings hs'
  have hrefuses (message : Text) (parameters : List (Text × Text)) :
      Triple (fun s' => s' = s) (pure (.error message parameters))
        (Settled cols cls (.desktop user id json) s)
        (Untouched cols cls (.desktop user id json) s) :=
    Triple.pure fun s' hs' => congrArg Store.settings hs'
  refine (Triple.read_eq hdies).bind fun found => Triple.of_fact ?_
  rintro rfl
  cases hfound : s.vms.find? fun vm => vm.id == id && vm.user == user with
  | none => exact hrefuses _ _
  | some vm =>
    refine (Triple.read_eq hdies).bind fun desktop => Triple.of_fact ?_
    rintro rfl
    have hhas : Triple (fun s' => s' = s)
        (match desktopOf s vm with
          | none => (pure false : Program Store Bool)
          | some desktop => Statements.read fun s => s.hasSettings .desktopSettings desktop.id)
        (fun has s' => has = (desktopOf s vm).any (fun desktop =>
          s.hasSettings .desktopSettings desktop.id) ∧ s' = s)
        (Untouched cols cls (.desktop user id json) s) := by
      cases desktopOf s vm with
      | none => exact Triple.pure fun _ hs' => ⟨rfl, hs'⟩
      | some desktop => exact Triple.read_eq hdies
    refine hhas.bind fun has => Triple.of_fact ?_
    rintro rfl
    cases hinvalid : findInvalidParameter cls json
      (desktopSyntax ((desktopOf s vm).any fun desktop =>
        s.hasSettings .desktopSettings desktop.id)) order with
    | none => exact Triple.die hdies
    | some finding =>
      cases finding with
      | some finding => exact hrefuses _ _
      | none => exact saveDesktop_triple hfound (valid_iff.mp hinvalid)

theorem put_triple (cols : Columns) (cls : DigitClass) (order : HashOrder) (request : Put)
    (s : Store) :
    Triple (fun s' => s' = s) (put cols cls order request) (Settled cols cls request s)
      (Untouched cols cls request s) := by
  cases request with
  | workspace user id json => exact putWorkspace_triple user id json s
  | desktop user id json => exact putDesktop_triple user id json s

end Handlers

/-! ### A failure after a change -/

section Failures

variable {cols : Columns} {cls : DigitClass} {order : HashOrder} {json : List (Text × Json)}
  {s : Store} {table : Table} {owner : ℕ} {entries : List (Text × Json)} {param : Text}
  {rest : List Text}

theorem loop_dies {save : Text → Program Store Unit} {α : Type} {rest' : Program Store α}
    (hrounds : Rounds cols table owner entries save)
    (hloose : param ∈ portalParameters → LooseSetting (get entries param))
    (hfirst : order.keys (names entries) = param :: rest)
    (hharmless : ¬Harmless cols s.settings ⟨table, owner, param⟩ (get entries param))
    (hrest : Stuck rest') {s' : Store} (hs' : s'.settings = s.settings) :
    Dies ((order.keys (names entries)).forM save >>= fun _ => rest') s'
      (fun s'' => s''.settings ≠ s.settings) := by
  rw [hfirst]
  rw [← hs'] at hharmless ⊢
  exact (settings_reaches hrounds hloose hharmless).dies fun _ => hrest

theorem updateWorkspace_gives {ws new : Workspace} {s' : Store}
    (hrow : newWorkspace cols json ws = some new) (hfree : new = ws ∨ nameTaken new s' = false) :
    ∃ s'', Gives (updateWorkspace cols json ws) s' new s'' ∧ s''.settings = s'.settings := by
  unfold updateWorkspace
  rw [hrow]
  dsimp only
  split_ifs with hsame
  · exact ⟨s', hsame ▸ Gives.pure ws s', rfl⟩
  · refine ⟨s'.setWorkspace new, Gives.statement ?_, rfl⟩
    rw [hfree.resolve_left hsame]
    rfl

theorem saveWorkspace_dies {ws new : Workspace}
    (hrow : newWorkspace cols json ws = some new)
    (hfree : new = ws ∨ nameTaken new s = false)
    (hentries : entriesOf (get json "settings".toList) = some entries)
    (hloose : param ∈ portalParameters → LooseSetting (get entries param))
    (hfirst : order.keys (names entries) = param :: rest)
    (hharmless : ¬Harmless cols s.settings ⟨.workspaceSettings, ws.id, param⟩
      (get entries param)) :
    Dies (saveWorkspace cols order json ws) s (fun s' => s'.settings ≠ s.settings) := by
  obtain ⟨s', hdeactivate, hs', hfree'⟩ : ∃ s', Gives
      (if isTrue (get json "active".toList) && !ws.active then
        statement fun s => some ((), s.deactivated) else pure ()) s () s' ∧
      s'.settings = s.settings ∧ (new = ws ∨ nameTaken new s' = false) := by
    split_ifs
    · exact ⟨s.deactivated, Gives.statement rfl, rfl,
        hfree.imp_right fun h => (nameTaken_deactivated new s).trans h⟩
    · exact ⟨s, Gives.pure () s, rfl, hfree⟩
  obtain ⟨s'', hupdate, hs''⟩ := updateWorkspace_gives hrow hfree'
  refine Dies.bind_right hdeactivate (Dies.bind_right hupdate ?_)
  rw [hentries]
  refine Dies.bind_right (Gives.pure entries s'') ?_
  exact loop_dies (workspaceRounds cols ws.id entries) hloose hfirst hharmless
    (Stuck.read _).bind_left.bind_left (hs''.trans hs')

theorem writeDesktop_gives {vm : Vm} {new : Desktop}
    (hrow : newDesktop cols json vm ((desktopOf s vm).elim s.nextDesktop (·.id))
      (desktopOf s vm) = some new)
    (hfree : desktopOf s vm = some new ∨ aliasTaken new s = false) :
    ∃ s', Gives (writeDesktop cols json vm (desktopOf s vm)) s new s' ∧
      s'.settings = s.settings := by
  unfold writeDesktop
  cases hdesktop : desktopOf s vm with
  | none =>
    rw [hdesktop] at hrow hfree
    replace hrow : newDesktop cols json vm s.nextDesktop none = some new := hrow
    refine ⟨s.addDesktop new, Gives.statement ?_, rfl⟩
    rw [hrow]
    dsimp only
    rw [hfree.resolve_left (Option.some_ne_none new).symm]
    rfl
  | some old =>
    rw [hdesktop] at hrow hfree
    replace hrow : newDesktop cols json vm old.id (some old) = some new := hrow
    dsimp only
    rw [hrow]
    split_ifs with hsame
    · cases hsame
      exact ⟨s, Gives.pure new s, rfl⟩
    · refine ⟨s.setDesktop new, Gives.statement ?_, rfl⟩
      dsimp only
      rw [hfree.resolve_left fun h => hsame h.symm]
      rfl

theorem saveDesktop_dies {vm : Vm} {new : Desktop}
    (hrow : newDesktop cols json vm ((desktopOf s vm).elim s.nextDesktop (·.id))
      (desktopOf s vm) = some new)
    (hfree : desktopOf s vm = some new ∨ aliasTaken new s = false)
    (hentries : entriesOf (get json "settings".toList) = some entries)
    (hloose : param ∈ portalParameters → LooseSetting (get entries param))
    (hfirst : order.keys (names entries) = param :: rest)
    (hharmless : ¬Harmless cols s.settings ⟨.desktopSettings, new.id, param⟩
      (get entries param)) :
    Dies (saveDesktop cols order json vm (desktopOf s vm)) s
      (fun s' => s'.settings ≠ s.settings) := by
  obtain ⟨s', hwrite, hs'⟩ := writeDesktop_gives hrow hfree
  refine Dies.bind_right hwrite ?_
  rw [hentries]
  refine Dies.bind_right (Gives.pure entries s') ?_
  exact loop_dies (desktopRounds cols new.id entries) hloose hfirst hharmless
    (Stuck.read _).bind_left hs'

/-- A request with a setting that is not harmless can fail after a change. -/
theorem put_dies {request : Put} (hsaves : Saves cols cls request s table owner entries)
    (hparam : param ∈ names entries)
    (hharmless : ¬Harmless cols s.settings ⟨table, owner, param⟩ (get entries param)) :
    ∃ order, Dies (put cols cls order request) s (fun s' => s'.settings ≠ s.settings) := by
  obtain ⟨i, rest, hfirst⟩ := exists_rotated hparam
  refine ⟨rotated i, ?_⟩
  cases hsaves with
  | workspace hfound hvalid hsettled hrow hfree hentries =>
    have hloose := loose_of_valid hvalid rfl (settings_type _) hentries param hparam
    refine Dies.bind_right (Gives.read _ s) ?_
    rw [hfound]
    refine Dies.bind_right (Gives.read _ s) ?_
    rw [valid_iff.mpr hvalid]
    dsimp only
    rw [hsettled]
    exact saveWorkspace_dies hrow hfree hentries hloose hfirst hharmless
  | @desktop user id json s vm new entries hfound hvalid hrow hfree hentries =>
    have hloose := loose_of_valid hvalid rfl (desktop_settings_type _) hentries param hparam
    refine Dies.bind_right (Gives.read _ s) ?_
    rw [hfound]
    refine Dies.bind_right (Gives.read _ s) ?_
    have hhas : Gives
        (match desktopOf s vm with
          | none => (pure false : Program Store Bool)
          | some desktop => Statements.read fun s => s.hasSettings .desktopSettings desktop.id) s
        ((desktopOf s vm).any fun desktop => s.hasSettings .desktopSettings desktop.id) s := by
      cases desktopOf s vm with
      | none => exact Gives.pure false s
      | some desktop => exact Gives.read _ s
    refine Dies.bind_right hhas ?_
    rw [valid_iff.mpr hvalid]
    exact saveDesktop_dies hrow hfree hentries hloose hfirst hharmless

end Failures

/-! ### The result -/

section Result

/-- A request saves exactly what it asks for, and nothing if it fails, if and only if it is not
accepted, the database does not take the row of its object, or every setting given is harmless. -/
theorem exact_and_atomic_iff (cols : Columns) (cls : DigitClass) (request : Put) (s : Store) :
    ExactAndAtomic cols cls request s ↔ OnlyHarmless cols cls request s := by
  constructor
  · intro hexact table owner entries hsaves param hparam
    by_contra hharmless
    obtain ⟨order, left, s', hrun, hchanged⟩ := put_dies hsaves hparam hharmless
    have hafter := hexact order left
    rw [hrun] at hafter
    exact hchanged hafter
  · intro hharmless order left
    have hends := put_triple cols cls order request s ⟨left, s⟩ rfl
    rcases hrun : put cols cls order request ⟨left, s⟩ with ⟨_ | answer, after⟩
    · rw [hrun] at hends
      exact hends hharmless
    · rw [hrun] at hends
      exact hends

/-- A database that takes strings, and truth values for a boolean. -/
def strings : Columns where
  text
    | .scalar t => some t
    | _ => none
  text_scalar h := (Option.some.inj h).symm
  text_null := rfl
  name
    | .scalar t => some t
    | _ => none
  boolean
    | .bool b => some b
    | .scalar ['1'] => some true
    | .scalar ['0'] => some false
    | _ => none

/-- A workspace with a single setting. -/
def stored : Store where
  workspaces := [⟨1, 1, "office".toList, false, true⟩]
  vms := []
  desktops := []
  nextDesktop := 1
  settings key :=
    if key = ⟨.workspaceSettings, 1, "audio".toList⟩ then some ⟨['1'], []⟩ else none

/-- `{"settings": {"share_folders": {"value": "1", "list": ["docs"]}}}`. -/
def newSetting : Put :=
  .workspace 1 1 [("settings".toList, .hash [("share_folders".toList,
    .hash [("value".toList, .scalar ['1']), ("list".toList, .array [.scalar "docs".toList])])])]

/-- The setting is new, and its list is not created: `$setting` is undef. It stays without one. -/
theorem half_saved : ¬ExactAndAtomic strings ascii newSetting stored := by
  intro h
  have hafter := h (rotated 0) 100
  have hfailed : (put strings ascii (rotated 0) newSetting ⟨100, stored⟩).1.any
    Answer.success = false := by decide +kernel
  have hthere : ((put strings ascii (rotated 0) newSetting ⟨100, stored⟩).2.store.settings
    ⟨.workspaceSettings, 1, "share_folders".toList⟩) = some ⟨['1'], []⟩ := by decide +kernel
  rcases hrun : put strings ascii (rotated 0) newSetting ⟨100, stored⟩ with ⟨answer, after⟩
  rw [hrun] at hafter hfailed hthere
  replace hafter : after.store.settings = stored.settings := by
    simpa [hfailed] using hafter
  rw [hafter] at hthere
  exact absurd hthere (by decide +kernel)

end Result

end Qvd.PortalSettings
