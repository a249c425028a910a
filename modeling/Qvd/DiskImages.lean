import Mathlib.Data.List.Sort
import Qvd.Runs

/-!
The disk images of the operating system flavours and the tags they carry: the tables, the
calls of the API that write them, and the runs of these calls.
-/
namespace Qvd.DiskImages

open Runs

abbrev DiId := ℕ
abbrev OsfId := ℕ
abbrev TenantId := ℕ

/-- The values of di_generation_state_enum. -/
inductive DiState
  | new | generating | fail | uploading | uploadStalled | verifying | ready | published | retired
deriving DecidableEq, Repr

structure Osf where
  id : OsfId
  tenantId : TenantId
  useOverlay : Bool
  userStorageSize : Option ℕ
  memory : ℕ
deriving DecidableEq, Repr

/-- A row of dis with its row of di_runtimes. -/
structure Di where
  id : DiId
  osfId : OsfId
  version : String
  path : String
  blocked : Bool
  state : DiState
deriving DecidableEq, Repr

structure DiTag where
  diId : DiId
  tag : String
  fixed : Bool
deriving DecidableEq, Repr

/-- A row of vms with the image that its row of vm_runtimes names. -/
structure Vm where
  osfId : OsfId
  diTag : String
  currentDiId : Option DiId
deriving DecidableEq, Repr

structure Tables where
  osfs : List Osf
  dis : List Di
  diTags : List DiTag
  vms : List Vm
deriving DecidableEq

/-- The primary keys, the unique constraint on the versions, and the foreign keys. The tags
have no unique constraint. -/
structure Tables.Valid (t : Tables) : Prop where
  osfs_ids : (t.osfs.map Osf.id).Nodup
  dis_ids : (t.dis.map Di.id).Nodup
  dis_versions : (t.dis.map (fun di => (di.osfId, di.version))).Nodup
  dis_osfs : ∀ di ∈ t.dis, di.osfId ∈ t.osfs.map Osf.id
  diTags_dis : ∀ row ∈ t.diTags, row.diId ∈ t.dis.map Di.id

instance (t : Tables) : Decidable t.Valid :=
  decidable_of_iff ((t.osfs.map Osf.id).Nodup ∧ (t.dis.map Di.id).Nodup ∧
      (t.dis.map (fun di => (di.osfId, di.version))).Nodup ∧
      (∀ di ∈ t.dis, di.osfId ∈ t.osfs.map Osf.id) ∧
      (∀ row ∈ t.diTags, row.diId ∈ t.dis.map Di.id))
    ⟨fun ⟨h₁, h₂, h₃, h₄, h₅⟩ => ⟨h₁, h₂, h₃, h₄, h₅⟩,
      fun ⟨h₁, h₂, h₃, h₄, h₅⟩ => ⟨h₁, h₂, h₃, h₄, h₅⟩⟩

structure Database extends Tables where
  valid : toTables.Valid
deriving DecidableEq

inductive Failure
  | exception (code : ℕ)
  | died
  | constraint
deriving DecidableEq, Repr

/-- The end of a transaction, which the constraints may refuse. -/
def commit (t : Tables) : Except Failure Database :=
  if h : t.Valid then .ok ⟨t, h⟩ else .error .constraint

section Rows

variable (t : Tables)

/-- The image of an id; without one the caller fails in its own way. -/
def find (id : DiId) (failure : Failure) : Except Failure Di :=
  match t.dis.find? (fun di => di.id = id) with
  | none => .error failure
  | some di => .ok di

/-- The image a request selects. -/
def select (id : DiId) : Except Failure Di :=
  find t id (.exception 1300)

/-- The rows of the tags of an image, in the order of the relation. -/
def tags (di : Di) : List DiTag :=
  (t.diTags.filter (fun row => row.diId = di.id)).insertionSort (fun a b => b.tag ≤ a.tag)

def hasTag (di : Di) (tag : String) : Bool :=
  t.diTags.any (fun row => row.diId = di.id && row.tag = tag)

/-- The row is of an image of the flavour. -/
def inOsf (osf : OsfId) (row : DiTag) : Bool :=
  t.dis.any (fun di => di.id = row.diId && di.osfId = osf)

/-- The row is of another image of the same flavour. -/
def onOther (di : Di) (row : DiTag) : Bool :=
  inOsf t di.osfId row && row.diId != di.id

/-- The row is of a published image. -/
def onPublished (row : DiTag) : Bool :=
  t.dis.any (fun di => di.id = row.diId && di.state = .published)

end Rows

section Lookups

structure DiRow where
  id : DiId
  path : String
  useOverlay : Bool
  userStorageSize : Option ℕ
  memory : ℕ
deriving DecidableEq, Repr

variable (t : Tables) (vm : Vm)

/-- The query of the daemon when a machine is started. -/
def searchDi : List DiRow :=
  t.diTags.flatMap (fun row => t.dis.flatMap (fun di =>
    (t.osfs.filter (fun osf => di.osfId = osf.id && row.diId = di.id && !di.blocked &&
      osf.id = vm.osfId && row.tag = vm.diTag)).map
      (fun osf => DiRow.mk di.id di.path osf.useOverlay osf.userStorageSize osf.memory)))

/-- The relation di of a machine. -/
def vmDi : List Di :=
  let published := t.dis.flatMap (fun di =>
    (t.diTags.filter (fun row => row.diId = di.id && row.tag = vm.diTag &&
      di.state = .published)).map (fun _ => di.id))
  t.dis.filter (fun di => di.osfId = vm.osfId && di.id ∈ published)

end Lookups

section Parts

/-- What a call commits at once. -/
abbrev Part := Database → Except Failure Database

variable (t : Tables)

/-- The tags are added one by one unless one of them is fixed in the flavour. -/
def addTags (di : Di) : List String → List DiTag → Except Failure (List DiTag)
  | [], rows => .ok rows
  | tag :: rest, rows =>
    if rows.any (fun row => row.tag = tag && inOsf t di.osfId row && row.fixed) then
      .error (.exception 7330)
    else addTags di rest (rows ++ [{ diId := di.id, tag := tag, fixed := false }])

/-- One round of the loop over the tags of an image: the first row of the tag on another
published image goes, and for a fixed tag all the rows on other images. -/
def consolidateTag (di : Di) (rows : List DiTag) (tag : DiTag) : List DiTag :=
  let rest := rows.eraseP (fun row => row.tag = tag.tag && onOther t di row && onPublished t row)
  if tag.fixed then rest.filter (fun row => !(row.tag = tag.tag && onOther t di row)) else rest

def tagsConsolidate (di : Di) : Tables :=
  { t with diTags := (tags t di).foldl (consolidateTag t di) t.diTags }

def tagsCreate (names : List (Option String)) (di : Di) : Except Failure Tables := do
  let names := names.filterMap (fun name => name.filter (fun name => name ≠ ""))
  let rows ← addTags t di names t.diTags
  let t := { t with diTags := rows }
  .ok (if di.state = .published then tagsConsolidate t di else t)

/-- The first row of each tag goes. -/
def tagsDelete (di : Di) : List (Option String) → List DiTag → Except Failure (List DiTag)
  | [], rows => .ok rows
  | name :: rest, rows =>
    match rows.find? (fun row => row.diId = di.id && some row.tag = name) with
    | none => tagsDelete di rest rows
    | some row =>
      if row.fixed || row.tag = "head" || row.tag = "default" then .error (.exception 7340)
      else tagsDelete di rest (rows.eraseP (fun r => r.diId = di.id && some r.tag = name))

/-- Writes of a row that are not part of a transaction. -/
def createTag (row : DiTag) : Part := fun db =>
  commit { db.toTables with diTags := db.diTags ++ [row] }

def diStateUpdate (id : DiId) (state : DiState) : Tables :=
  { t with dis := t.dis.map (fun di => if di.id = id then { di with state := state } else di) }

/-- The arguments of a creation, and the tenant of an administrator who is bound to one. -/
structure Creation where
  administrator : Option TenantId
  id : DiId
  osfId : OsfId
  version : String
  diskImage : String
  blocked : Bool
  tags : List (Option String)
deriving DecidableEq

def create (c : Creation) : Part := fun db => do
  let osf := db.osfs.find? (fun osf => osf.id = c.osfId)
  if c.administrator ≠ none ∧ osf = none then .error .died
  else if c.administrator ≠ none ∧ c.administrator ≠ osf.map Osf.tenantId then
    .error (.exception 7110)
  else
    let di := { id := c.id, osfId := c.osfId, version := c.version, path := c.diskImage
                blocked := c.blocked, state := .new : Di }
    let t ← tagsCreate { db.toTables with dis := db.dis ++ [di] } c.tags di
    commit t

def diCreate (c : Creation) : List Part :=
  [create c, createTag { diId := c.id, tag := c.version, fixed := true },
    createTag { diId := c.id, tag := "head", fixed := false }]

def diPublish (id : DiId) : List Part :=
  [fun db => do
    let di ← find db.toTables id .died
    if di.state ≠ .ready then .error (.exception 1100)
    else commit (tagsConsolidate db.toTables di),
   fun db => commit (diStateUpdate db.toTables id .published)]

def diNoVmRuntimes (di : Di) : Bool :=
  t.vms.all (fun vm => vm.currentDiId ≠ some di.id)

def diNoDependantVms (di : Di) : Bool :=
  t.vms.all (fun vm => (vmDi t vm).all (fun d => d.id ≠ di.id))

/-- The other published images of the flavour. -/
def potentials (di : Di) : List Di :=
  t.dis.filter (fun d => d.osfId = di.osfId && d.id ≠ di.id && d.state = .published)

/-- One round of the loop of di_no_head_default_tags. -/
def diNoHeadDefaultTag (tag : String) (di : Di) : Part := fun db =>
  if di.state = .published ∧ hasTag db.toTables di tag then
    match (potentials db.toTables di).getLast? with
    | none => .ok db
    | some newDi => createTag { diId := newDi.id, tag := tag, fixed := false } db
  else .ok db

/-- The row of the image goes with those of its tags. -/
def deleteDi (di : Di) : Tables :=
  { t with dis := t.dis.filter (fun d => d.id ≠ di.id)
           diTags := t.diTags.filter (fun row => row.diId ≠ di.id) }

def diDelete (id : DiId) : List Part :=
  [fun db => do
    let di ← select db.toTables id
    if diNoVmRuntimes db.toTables di = false then .error (.exception 7320)
    else if diNoDependantVms db.toTables di = false then .error (.exception 7120)
    else diNoHeadDefaultTag "default" di db,
   fun db => do diNoHeadDefaultTag "head" (← select db.toTables id) db,
   fun db => do commit (deleteDi db.toTables (← select db.toTables id))]

end Parts

/-- The calls; those on tags are part of the update of an image. -/
inductive Call
  | diCreate (c : Creation)
  | tagsCreate (id : DiId) (names : List (Option String))
  | tagsDelete (id : DiId) (names : List (Option String))
  | tagsConsolidate (id : DiId)
  | diPublish (id : DiId)
  | diDelete (id : DiId)
deriving DecidableEq

def Call.parts : Call → List Part
  | .diCreate c => DiskImages.diCreate c
  | .tagsCreate id names =>
    [fun db => do commit (← DiskImages.tagsCreate db.toTables names (← select db.toTables id))]
  | .tagsDelete id names =>
    [fun db => do
      let rows ← DiskImages.tagsDelete (← select db.toTables id) names db.diTags
      commit { db.toTables with diTags := rows }]
  | .tagsConsolidate id =>
    [fun db => do commit (DiskImages.tagsConsolidate db.toTables (← select db.toTables id))]
  | .diPublish id => DiskImages.diPublish id
  | .diDelete id => DiskImages.diDelete id

/-- The state a call leaves that stops after a number of parts or at a failure. -/
def runParts : ℕ → List Part → Database → Database
  | 0, _, db => db
  | _, [], db => db
  | n + 1, part :: rest, db =>
    match part db with
    | .error _ => db
    | .ok db => runParts n rest db

/-- The database, with the flavours of which an image that carried the tag head has been
published. -/
structure World where
  db : Database
  headPublished : List OsfId
deriving DecidableEq

/-- The flavours of the images that are published now and were not before, with head. -/
def headPublications (before after : Tables) : List OsfId :=
  (after.dis.filter (fun di => di.state = .published && hasTag after di "head" &&
    !before.dis.any (fun d => d.id = di.id && d.state = .published))).map Di.osfId

/-- A call that gets as far as a number of its parts, the next state of an image that is
made and not yet published, and what happens to the machines. -/
inductive Action
  | call (c : Call) (parts : ℕ)
  | prepare (id : DiId) (state : DiState)
  | vms (vms : List Vm)

def Database.prepare (db : Database) (id : DiId) (state : DiState) : Database :=
  match find db.toTables id .died with
  | .error _ => db
  | .ok di =>
    if di.state = .published ∨ state = .published then db
    else
      match commit (diStateUpdate db.toTables id state) with
      | .error _ => db
      | .ok db => db

def Database.after (db : Database) : Action → Database
  | .call c n => runParts n c.parts db
  | .prepare id state => db.prepare id state
  | .vms vms => { db with vms := vms, valid := { db.valid with } }

def World.after (w : World) (a : Action) : World where
  db := w.db.after a
  headPublished := headPublications w.db.toTables (w.db.after a).toTables ++ w.headPublished

def diskImages : System World Action where
  init w := w.db.dis = [] ∧ w.db.diTags = [] ∧ w.headPublished = []
  step w a w' := w' = w.after a

/-- Actions one after the other are a run. -/
theorem reachable_foldl {w : World} (h : diskImages.Reachable w) (actions : List Action) :
    diskImages.Reachable (actions.foldl World.after w) := by
  induction actions generalizing w with
  | nil => exact h
  | cons a actions ih =>
    obtain ⟨past, run⟩ := h
    exact ih ⟨_, run.extend rfl⟩

/-- The tables of one flavour without images. -/
def emptyWorld : World where
  db := ⟨⟨[⟨1, 1, true, none, 512⟩], [], [], []⟩, by decide⟩
  headPublished := []

def creation (id : DiId) (version : String) (tags : List (Option String)) : Creation where
  administrator := none
  id := id
  osfId := 1
  version := version
  diskImage := "image.tgz"
  blocked := false
  tags := tags

theorem reachable_emptyWorld (actions : List Action) :
    diskImages.Reachable (actions.foldl World.after emptyWorld) :=
  reachable_foldl ⟨[], .start ⟨rfl, rfl, rfl⟩⟩ actions

end Qvd.DiskImages
