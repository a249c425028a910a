import Mathlib.Data.List.Count
import Mathlib.Data.List.Nodup
import Qvd.Runs

/-!
The workspaces of the user portal: the table, the three requests that change it, and the
active workspace of each user. The statements of a request are not in a transaction, so a
statement that the database refuses leaves the ones before it done.
-/
namespace Qvd.PortalWorkspaces

open Qvd.Runs

/-! ### Parameters of a request -/

/-- What is asked of a JSON value that stands for a boolean: the comparisons of the type
checks, its truth in Perl, and the boolean that the database reads (`none` where it refuses
the value). -/
structure Scalar where
  isZero : Bool
  isOne : Bool
  truthy : Bool
  boolean : Option Bool
  truthy_of_isOne : isOne = true → truthy = true
  boolean_of_isOne : isOne = true → boolean ≠ some false
  boolean_of_falsy : truthy = false → boolean ≠ some true

def jsonTrue : Scalar := ⟨false, true, true, some true, by decide, by decide, by decide⟩

def jsonFalse : Scalar := ⟨true, false, false, some false, by decide, by decide, by decide⟩

/-- The string `"false"`: its number is 0, it is true in Perl and false in the database. -/
def falseString : Scalar := ⟨true, false, true, some false, by decide, by decide, by decide⟩

/-- One key of the settings; `isSetting` is the check of its value. -/
structure Setting where
  name : String
  isSetting : Bool

/-- `user_portal_parameters_enum`. -/
def portalParameters : List String :=
  ["connection", "audio", "printers", "fullscreen", "share_folders", "share_usb", "client",
    "kb_layout"]

inductive ParameterType
  | flag | bool | string | allParameters | someParameters

/-- `/^.*$/`: no line break but at the end. -/
def isLine (s : String) : Bool := s.toList.dropLast.all (· != '\n')

/-- `grep($param, @enum)` asks only whether the name is true. -/
def isTrueName (s : String) : Bool := s != "" && s != "0"

def checkFlag (v : Scalar) : Bool := v.isOne

def checkBool (v : Scalar) : Bool := v.isOne || v.isZero

def checkAllParameters (settings : List Setting) : Bool :=
  portalParameters.all fun p => settings.any fun s => s.name == p && s.isSetting

def checkSomeParameters (settings : List Setting) : Bool :=
  !settings.isEmpty && settings.all fun s => isTrueName s.name && s.isSetting

structure Params where
  name : Option String
  active : Option Scalar
  settings : Option (List Setting)

/-- `find_invalid_parameter` finds nothing for a creation. -/
def createValid (p : Params) : Bool :=
  p.name.any isLine && p.active.any checkBool && p.settings.any checkAllParameters

/-- For an update everything is optional; the settings must be complete where there are
none yet. -/
def updateValid (hasSettings : Bool) (p : Params) : Bool :=
  p.name.all isLine && p.active.all checkFlag &&
    p.settings.all (if hasSettings then checkSomeParameters else checkAllParameters)

/-! ### The table -/

structure Workspace where
  id : ℕ
  userId : ℕ
  name : String
  fixed : Bool
  active : Bool
  settings : List String
  deriving DecidableEq, Repr

structure Table where
  rows : List Workspace
  nextId : ℕ

/-- `UPDATE workspaces SET … WHERE …`. -/
def updateWhere (p : Workspace → Bool) (f : Workspace → Workspace) (rows : List Workspace) :
    List Workspace :=
  rows.map fun w => if p w then f w else w

def deactivate (w : Workspace) : Workspace := { w with active := false }

/-- The names that get a row in the settings; a name outside the enumeration ends the
request. -/
def addSettings (present : List String) : List Setting → List String
  | [] => present
  | s :: rest =>
    if s.name ∈ present then addSettings present rest
    else if s.name ∈ portalParameters then addSettings (present ++ [s.name]) rest
    else present

section Requests

-- the names that the column takes
variable (fits : String → Bool)

/-- The unique constraint on user and name, and the width of the column. -/
def acceptsName (rows : List Workspace) (userId : ℕ) (name : String) : Bool :=
  fits name && rows.all fun w => !(w.userId == userId && w.name == name)

inductive Reply
  | rendered
  | invalidParameter
  | refused (message : String)
  | died
  deriving DecidableEq, Repr

/-- `create_workspace`. -/
def createWorkspace (userId : ℕ) (name : String) (active : Scalar) (settings : List Setting)
    (fixed : Bool) (t : Table) : Reply × Table :=
  let own := fun w : Workspace => w.userId == userId && w.active
  let rows := if active.truthy then updateWhere own deactivate t.rows else t.rows
  let value := if active.truthy then active.boolean
    else if t.rows.any own then active.boolean else some true
  match value with
  | some b =>
    if acceptsName fits rows userId name then
      (.rendered, ⟨rows ++ [⟨t.nextId, userId, name, fixed, b, addSettings [] settings⟩],
        t.nextId + 1⟩)
    else (.died, ⟨rows, t.nextId + 1⟩)
  | none => (.died, ⟨rows, t.nextId + 1⟩)

/-- `POST /api/workspaces/`. -/
def postWorkspace (userId : ℕ) (p : Params) (t : Table) : Reply × Table :=
  match p.name, p.active, p.settings with
  | some name, some active, some settings =>
    if createValid p then createWorkspace fits userId name active settings false t
    else (.invalidParameter, t)
  | _, _, _ => (.invalidParameter, t)

def findWorkspace (t : Table) (userId id : ℕ) : Option Workspace :=
  t.rows.find? fun w => w.id == id && w.userId == userId

/-- `$workspace->update({ %$args })`, refused as a whole by the database; a name that stays
is not written. -/
def updateRow (rows : List Workspace) (w : Workspace) (name : Option String)
    (active : Option Scalar) : Option (List Workspace) :=
  let others := rows.filter fun v => v.id != w.id
  if name.all (fun n => n == w.name || acceptsName fits others w.userId n) then
    match active with
    | none => some (updateWhere (fun v => v.id == w.id)
        (fun v => { v with name := name.getD v.name }) rows)
    | some value => value.boolean.map fun b => updateWhere (fun v => v.id == w.id)
        (fun v => { v with name := name.getD v.name, active := b }) rows
  else none

/-- The database takes the new values of the row. -/
def acceptsUpdate (rows : List Workspace) (w : Workspace) (name : Option String)
    (active : Option Scalar) : Bool :=
  name.all (fun n => n == w.name ||
    acceptsName fits (rows.filter fun v => v.id != w.id) w.userId n) &&
    active.all fun value => value.boolean.isSome

/-- `PUT /api/workspaces/:id`. -/
def putWorkspace (userId id : ℕ) (p : Params) (t : Table) : Reply × Table :=
  match findWorkspace t userId id with
  | none => (.refused "Invalid Workspace", t)
  | some w =>
    if updateValid (!w.settings.isEmpty) p then
      if p.active.any Scalar.truthy && w.settings.isEmpty && p.settings.isNone then
        (.refused "Cannot activate workspaces with no settings", t)
      else
        let activates := p.active.any Scalar.truthy && !w.active
        let rows := if activates then updateWhere Workspace.active deactivate t.rows else t.rows
        match updateRow fits rows w p.name p.active with
        | none => (.died, ⟨rows, t.nextId⟩)
        | some rows =>
          (.rendered, ⟨updateWhere (fun v => v.id == id)
            (fun v => { v with settings := addSettings v.settings (p.settings.getD []) }) rows,
            t.nextId⟩)
    else (.invalidParameter, t)

/-- The lowest id of the workspaces of a user. -/
def minId (rows : List Workspace) (userId : ℕ) : Option ℕ :=
  ((rows.filter fun w => w.userId == userId).map Workspace.id).min?

/-- `DELETE /api/workspaces/:id`. -/
def deleteWorkspace (userId id : ℕ) (t : Table) : Reply × Table :=
  match findWorkspace t userId id with
  | none => (.refused "Invalid Workspace", t)
  | some w =>
    if w.fixed then (.refused "Fixed Workspace cannot be deleted", t)
    else
      let rows := if w.active then
          updateWhere (fun v => some v.id == minId t.rows userId)
            (fun v => { v with active := true }) t.rows
        else t.rows
      (.rendered, ⟨rows.filter fun v => v.id != id, t.nextId⟩)

/-- The settings of the workspace that a login makes. -/
def defaultSettings : List Setting := portalParameters.map fun name => ⟨name, true⟩

/-- The part of a login that creates the default workspace of a user without any. -/
def login (userId : ℕ) (t : Table) : Reply × Table :=
  if t.rows.any (fun w => w.userId == userId) then (.rendered, t)
  else createWorkspace fits userId "Default" jsonTrue defaultSettings true t

inductive Request
  | login
  | post (p : Params)
  | put (id : ℕ) (p : Params)
  | delete (id : ℕ)

def handle (userId : ℕ) (r : Request) (t : Table) : Reply × Table :=
  match r with
  | .login => login fits userId t
  | .post p => postWorkspace fits userId p t
  | .put id p => putWorkspace fits userId id p t
  | .delete id => deleteWorkspace userId id t

/-! ### The property -/

def own (u : ℕ) (w : Workspace) : Bool := w.userId == u && w.active

/-- Every user with a workspace has exactly one active. -/
def OneActive (t : Table) : Prop :=
  ∀ u, (∃ w ∈ t.rows, w.userId = u) → t.rows.countP (own u) = 1

/-- The workspaces of the other users are what they were. -/
def OthersKept (u : ℕ) (t t' : Table) : Prop :=
  ∀ v, v ≠ u → t'.rows.filter (fun w => w.userId == v) = t.rows.filter (fun w => w.userId == v)

/-- Ids are keys, and the sequence is past all of them. -/
structure Keys (t : Table) : Prop where
  nodup : (t.rows.map Workspace.id).Nodup
  lt : ∀ w ∈ t.rows, w.id < t.nextId

/-- The requests of the users, one after the other. -/
def portal : System Table (ℕ × Request) where
  init t := Keys t ∧ OneActive t
  step t a t' := t' = (handle fits a.1 a.2 t).2

/-- A creation that is to be active goes through as such, or is the first workspace of its
user and does not go through as an inactive one. -/
def PostSafe (u : ℕ) (p : Params) (t : Table) : Prop :=
  ∀ name active settings, p.name = some name → p.active = some active →
    p.settings = some settings → createValid p = true → active.truthy = true →
    (acceptsName fits t.rows u name = true ∧ active.boolean = some true) ∨
      ((∀ w ∈ t.rows, w.userId ≠ u) ∧
        ¬ (acceptsName fits t.rows u name = true ∧ active.boolean = some false))

/-- The update gets past the checks and has to activate an inactive workspace. -/
def Activates (w : Workspace) (p : Params) : Prop :=
  updateValid (!w.settings.isEmpty) p = true ∧
    ¬ (p.active.any Scalar.truthy && w.settings.isEmpty && p.settings.isNone) = true ∧
    p.active.any Scalar.truthy = true ∧ w.active = false

/-- An activation meets no active workspace of another user, and the row takes it. -/
def PutSafe (u id : ℕ) (p : Params) (t : Table) : Prop :=
  ∀ w, findWorkspace t u id = some w → Activates w p →
    (∀ v ∈ t.rows, v.userId ≠ u → v.active = false) ∧
      acceptsUpdate fits t.rows w p.name p.active = true

/-- A deleted active workspace is not the first of its user, or is the only one. -/
def DeleteSafe (u id : ℕ) (t : Table) : Prop :=
  ∀ w, findWorkspace t u id = some w → w.fixed = false → w.active = true →
    (∃ v ∈ t.rows, v.userId = u ∧ v.id < id) ∨ ∀ v ∈ t.rows, v.userId = u → v.id = id

def Safe (t : Table) (a : ℕ × Request) : Prop :=
  match a.2 with
  | .login => True
  | .post p => PostSafe fits a.1 p t
  | .put id p => PutSafe fits a.1 id p t
  | .delete id => DeleteSafe a.1 id t

end Requests

/-! ### The table under its updates -/

section Updates

variable {rows : List Workspace} {u v : ℕ} {p : Workspace → Bool} {f : Workspace → Workspace}

theorem mem_updateWhere {x : Workspace} :
    x ∈ updateWhere p f rows ↔ ∃ w ∈ rows, (if p w then f w else w) = x := by
  simp [updateWhere]

theorem map_id_updateWhere (hf : ∀ w, (f w).id = w.id) :
    (updateWhere p f rows).map Workspace.id = rows.map Workspace.id := by
  rw [updateWhere, List.map_map]
  refine List.map_congr_left fun w _ => ?_
  by_cases hw : p w = true <;> simp [hw, hf]

/-- An update keeps the workspaces of the users it does not touch. -/
theorem filter_updateWhere (hf : ∀ w, (f w).userId = w.userId)
    (hp : ∀ w ∈ rows, p w = true → w.userId ≠ v) :
    (updateWhere p f rows).filter (fun w => w.userId == v) =
      rows.filter (fun w => w.userId == v) := by
  induction rows with
  | nil => rfl
  | cons w rest ih =>
    obtain ⟨hw, hrest⟩ := List.forall_mem_cons.mp hp
    have ih := ih hrest
    simp only [updateWhere] at ih
    by_cases hpw : p w = true
    · simp [updateWhere, hpw, hf, hw hpw, ih]
    · simp [updateWhere, hpw, List.filter_cons, ih]

theorem any_own_iff : rows.any (own u) = true ↔ ∃ w ∈ rows, w.userId = u ∧ w.active = true := by
  simp [own]

theorem acceptsName_updateWhere {fits : String → Bool} {name : String}
    (hf : ∀ w, (f w).userId = w.userId ∧ (f w).name = w.name) :
    acceptsName fits (updateWhere p f rows) u name = acceptsName fits rows u name := by
  have hcongr : ∀ w, (!((if p w then f w else w).userId == u &&
      (if p w then f w else w).name == name)) = !(w.userId == u && w.name == name) := by
    intro w
    by_cases hw : p w = true <;> simp [hw, hf w]
  simp only [acceptsName, updateWhere, List.all_map, Function.comp_def, hcongr]

theorem Keys.eq_of_id {t : Table} (hk : Keys t) {v w : Workspace} (hv : v ∈ t.rows)
    (hw : w ∈ t.rows) (h : v.id = w.id) : v = w :=
  List.inj_on_of_nodup_map hk.nodup hv hw h

end Updates

/-! ### Exactly one active workspace, row by row -/

section OneActive

/-- The user has `a` for the one active workspace. -/
def IsActive (rows : List Workspace) (u : ℕ) (a : Workspace) : Prop :=
  a ∈ rows ∧ a.userId = u ∧ a.active = true ∧
    ∀ v ∈ rows, v.userId = u → v.active = true → v.id = a.id

theorem countP_own_eq_one {rows : List Workspace} (hk : (rows.map Workspace.id).Nodup) (u : ℕ) :
    rows.countP (own u) = 1 ↔ ∃ a, IsActive rows u a := by
  induction rows with
  | nil => simp [IsActive]
  | cons w rest ih =>
    obtain ⟨hw, hrest⟩ := List.nodup_cons.mp hk
    have hne : ∀ v ∈ rest, v.id ≠ w.id := by
      intro v hv h
      exact hw (h ▸ List.mem_map_of_mem hv)
    by_cases hown : own u w = true
    · have hu : w.userId = u ∧ w.active = true := by simpa [own] using hown
      rw [List.countP_cons_of_pos hown]
      constructor
      · intro h
        have hnone : ∀ v ∈ rest, ¬ own u v = true :=
          List.countP_eq_zero.mp (by omega)
        refine ⟨w, List.mem_cons_self, hu.1, hu.2, ?_⟩
        grind [own]
      · rintro ⟨a, ha, hau, haa, hall⟩
        have hnone : rest.countP (own u) = 0 := by
          refine List.countP_eq_zero.mpr fun v hv hv' => ?_
          have hid := hall w List.mem_cons_self hu.1 hu.2
          have hid' := hall v (List.mem_cons_of_mem _ hv) (by grind [own]) (by grind [own])
          exact hne v hv (hid'.trans hid.symm)
        omega
    · rw [List.countP_cons_of_neg hown, ih hrest]
      have hu : w.userId = u → w.active ≠ true := by grind [own]
      simp only [IsActive, List.mem_cons]
      grind

theorem oneActive_iff {t : Table} (hk : Keys t) :
    OneActive t ↔ ∀ w ∈ t.rows, ∃ a, IsActive t.rows w.userId a := by
  simp only [OneActive, countP_own_eq_one hk.nodup]
  grind

end OneActive

/-! ### Creations -/

section Steps

variable (fits : String → Bool) {u : ℕ} {t : Table}

theorem Keys.of_map_id {rows : List Workspace} {n : ℕ} (hk : Keys t)
    (hrows : rows.map Workspace.id = t.rows.map Workspace.id) (hn : t.nextId ≤ n) :
    Keys ⟨rows, n⟩ := by
  refine ⟨hrows ▸ hk.nodup, fun w hw => ?_⟩
  have hid : w.id ∈ t.rows.map Workspace.id := hrows ▸ List.mem_map_of_mem hw
  obtain ⟨v, hv, hid⟩ := List.mem_map.mp hid
  have := hk.lt v hv
  show w.id < n
  omega

theorem Keys.append {rows : List Workspace} {w : Workspace} (hk : Keys ⟨rows, t.nextId⟩)
    (hw : w.id = t.nextId) : Keys ⟨rows ++ [w], t.nextId + 1⟩ := by
  have hlt : ∀ v ∈ rows, v.id < t.nextId := hk.lt
  constructor
  · simp only [List.map_append, List.map_cons, List.map_nil]
    refine List.Nodup.append hk.nodup (List.nodup_singleton _) ?_
    intro i hi hi'
    obtain ⟨v, hv, rfl⟩ := List.mem_map.mp hi
    have := hlt v hv
    simp at hi'
    omega
  · intro v hv
    rcases List.mem_append.mp hv with hv | hv
    · exact Nat.lt_succ_of_lt (hlt v hv)
    · rw [List.mem_singleton.mp hv, hw]
      exact Nat.lt_succ_self _

/-- The rows after the statement that makes room for a new active workspace. -/
def roomFor (u : ℕ) (truthy : Bool) (rows : List Workspace) : List Workspace :=
  if truthy then updateWhere (own u) deactivate rows else rows

theorem map_id_roomFor (truthy : Bool) (rows : List Workspace) :
    (roomFor u truthy rows).map Workspace.id = rows.map Workspace.id := by
  cases truthy
  · rfl
  · exact map_id_updateWhere fun _ => rfl

theorem filter_roomFor (truthy : Bool) (rows : List Workspace) {v : ℕ} (hv : v ≠ u) :
    (roomFor u truthy rows).filter (fun w => w.userId == v) =
      rows.filter (fun w => w.userId == v) := by
  cases truthy
  · rfl
  · refine filter_updateWhere (fun _ => rfl) fun w _ hw => ?_
    grind [own]

theorem acceptsName_roomFor (truthy : Bool) (rows : List Workspace) (name : String) :
    acceptsName fits (roomFor u truthy rows) u name = acceptsName fits rows u name := by
  cases truthy
  · rfl
  · exact acceptsName_updateWhere fun _ => ⟨rfl, rfl⟩

/-- The value that a creation writes for its active column. -/
def activeValue (u : ℕ) (active : Scalar) (rows : List Workspace) : Option Bool :=
  if active.truthy then active.boolean
    else if rows.any (own u) then active.boolean else some true

theorem createWorkspace_eq {name : String} {active : Scalar} {settings : List Setting}
    {fixed : Bool} :
    createWorkspace fits u name active settings fixed t =
      match activeValue u active t.rows with
      | some b =>
        if acceptsName fits t.rows u name then
          (.rendered, ⟨roomFor u active.truthy t.rows ++
            [⟨t.nextId, u, name, fixed, b, addSettings [] settings⟩], t.nextId + 1⟩)
        else (.died, ⟨roomFor u active.truthy t.rows, t.nextId + 1⟩)
      | none => (.died, ⟨roomFor u active.truthy t.rows, t.nextId + 1⟩) := by
  rw [← acceptsName_roomFor fits active.truthy]
  rfl

/-- What a creation leaves: the rows with room made, and a new row with the active value if
the database took it. -/
theorem createWorkspace_cases (u : ℕ) (name : String) (active : Scalar)
    (settings : List Setting) (fixed : Bool) (t : Table) :
    (∃ b w, activeValue u active t.rows = some b ∧ acceptsName fits t.rows u name = true ∧
      w.id = t.nextId ∧ w.userId = u ∧ w.active = b ∧
      (createWorkspace fits u name active settings fixed t).2 =
        ⟨roomFor u active.truthy t.rows ++ [w], t.nextId + 1⟩) ∨
    (¬ (acceptsName fits t.rows u name = true ∧ (activeValue u active t.rows).isSome = true) ∧
      (createWorkspace fits u name active settings fixed t).2 =
        ⟨roomFor u active.truthy t.rows, t.nextId + 1⟩) := by
  rw [createWorkspace_eq]
  cases hv : activeValue u active t.rows with
  | none => exact .inr ⟨by simp, rfl⟩
  | some b =>
    by_cases hname : acceptsName fits t.rows u name = true
    · refine .inl ⟨b, ⟨t.nextId, u, name, fixed, b, addSettings [] settings⟩, rfl, hname, rfl,
        rfl, rfl, ?_⟩
      simp [hname]
    · exact .inr ⟨by simp [hname], by simp [hname]⟩

theorem createWorkspace_keys (hk : Keys t) (u : ℕ) (name : String) (active : Scalar)
    (settings : List Setting) (fixed : Bool) :
    Keys (createWorkspace fits u name active settings fixed t).2 := by
  have hroom := map_id_roomFor active.truthy t.rows (u := u)
  rcases createWorkspace_cases fits u name active settings fixed t with
    ⟨b, w, -, -, hid, -, -, heq⟩ | ⟨-, heq⟩
  · rw [heq]
    exact (hk.of_map_id hroom le_rfl).append hid
  · rw [heq]
    exact hk.of_map_id hroom (Nat.le_succ _)

theorem createWorkspace_others (u : ℕ) (name : String) (active : Scalar)
    (settings : List Setting) (fixed : Bool) (t : Table) :
    OthersKept u t (createWorkspace fits u name active settings fixed t).2 := by
  intro v hv
  rcases createWorkspace_cases fits u name active settings fixed t with
    ⟨b, w, -, -, -, hu, -, heq⟩ | ⟨-, heq⟩
  · have hw : w.userId ≠ v := by
      rw [hu]
      exact Ne.symm hv
    simp [heq, filter_roomFor _ _ hv, hw]
  · rw [heq]
    exact filter_roomFor _ _ hv

/-- Room was made: the user has no active workspace, the others have what they had. -/
theorem isActive_roomFor {rows : List Workspace} {v : ℕ} {a : Workspace} :
    IsActive (roomFor u true rows) v a ↔ v ≠ u ∧ IsActive rows v a := by
  simp only [IsActive, roomFor, if_true, mem_updateWhere]
  constructor
  · rintro ⟨⟨w, hw, rfl⟩, hu, ha, hall⟩
    grind [own, deactivate]
  · rintro ⟨hv, ha⟩
    grind [own, deactivate]

theorem isActive_append_inactive {rows : List Workspace} {w a : Workspace} {v : ℕ}
    (hw : w.active = false) : IsActive (rows ++ [w]) v a ↔ IsActive rows v a := by
  simp only [IsActive, List.mem_append, List.mem_singleton]
  grind

theorem isActive_append_other {rows : List Workspace} {w a : Workspace} {v : ℕ}
    (hw : w.userId ≠ v) : IsActive (rows ++ [w]) v a ↔ IsActive rows v a := by
  simp only [IsActive, List.mem_append, List.mem_singleton]
  grind

theorem isActive_append_active {rows : List Workspace} {w : Workspace} (hw : w.active = true)
    (hnone : ∀ v ∈ rows, v.userId = w.userId → v.active = false) :
    IsActive (rows ++ [w]) w.userId w := by
  simp only [IsActive, List.mem_append, List.mem_singleton]
  grind

theorem mem_roomFor_user (u : ℕ) (truthy : Bool) (rows : List Workspace) {v : ℕ} :
    (∃ w ∈ roomFor u truthy rows, w.userId = v) ↔ ∃ w ∈ rows, w.userId = v := by
  cases truthy
  · exact Iff.rfl
  · simp only [roomFor, if_true, mem_updateWhere]
    grind [deactivate]

/-- A creation that is not to be active leaves one active workspace, its own if it is the
first. -/
theorem createWorkspace_inactive (hk : Keys t) (h1 : OneActive t) {active : Scalar}
    (htruthy : active.truthy = false) (name : String) (settings : List Setting)
    (fixed : Bool) : OneActive (createWorkspace fits u name active settings fixed t).2 := by
  rw [oneActive_iff (createWorkspace_keys fits hk ..)]
  rw [oneActive_iff hk] at h1
  rcases createWorkspace_cases fits u name active settings fixed t with
    ⟨b, w, hb, -, -, hu, hwb, heq⟩ | ⟨-, heq⟩
  · simp only [heq, htruthy, roomFor, Bool.false_eq_true, if_false, List.forall_mem_append,
      List.forall_mem_singleton]
    simp only [activeValue, htruthy, Bool.false_eq_true, if_false] at hb
    by_cases hany : t.rows.any (own u) = true
    · have hfalse : w.active = false := by
        have := active.boolean_of_falsy htruthy
        rw [if_pos hany] at hb
        cases b <;> simp_all
      obtain ⟨x, hx, hxu, -⟩ := any_own_iff.mp hany
      simp only [isActive_append_inactive hfalse]
      exact ⟨h1, hu ▸ hxu ▸ h1 x hx⟩
    · have htrue : w.active = true := by
        rw [if_neg hany] at hb
        rw [hwb, ← Option.some.inj hb]
      have hnone : ∀ v ∈ t.rows, v.userId ≠ w.userId := by
        intro v hv hvu
        obtain ⟨a, ha, hau, haa, -⟩ := h1 v hv
        exact hany (any_own_iff.mpr ⟨a, ha, hau.trans (hvu.trans hu), haa⟩)
      constructor
      · intro v hv
        obtain ⟨a, ha⟩ := h1 v hv
        exact ⟨a, (isActive_append_other (Ne.symm (hnone v hv))).mpr ha⟩
      · exact ⟨w, isActive_append_active htrue fun v hv h => absurd h (hnone v hv)⟩
  · simpa only [heq, htruthy, roomFor, Bool.false_eq_true, if_false] using h1

/-- A creation that is to be active leaves one active workspace if it goes through, or if
there was none to deactivate and no inactive row is added. -/
theorem createWorkspace_active (hk : Keys t) (h1 : OneActive t) {active : Scalar}
    (htruthy : active.truthy = true) (name : String) (settings : List Setting)
    (fixed : Bool) :
    OneActive (createWorkspace fits u name active settings fixed t).2 ↔
      (acceptsName fits t.rows u name = true ∧ active.boolean = some true) ∨
        ((∀ w ∈ t.rows, w.userId ≠ u) ∧
          ¬ (acceptsName fits t.rows u name = true ∧ active.boolean = some false)) := by
  rw [oneActive_iff (createWorkspace_keys fits hk ..)]
  rw [oneActive_iff hk] at h1
  have hvalue : activeValue u active t.rows = active.boolean := by simp [activeValue, htruthy]
  have hroom : (∀ w ∈ roomFor u true t.rows, ∃ a, IsActive (roomFor u true t.rows) w.userId a) ↔
      ∀ w ∈ t.rows, w.userId ≠ u := by
    simp only [isActive_roomFor]
    constructor
    · intro h w hw hu
      obtain ⟨x, hx, hxu⟩ := (mem_roomFor_user u true t.rows).mpr ⟨w, hw, hu⟩
      obtain ⟨a, ha, -⟩ := h x hx
      exact ha hxu
    · intro h x hx
      obtain ⟨w, hw, hwu⟩ := (mem_roomFor_user ..).mp ⟨x, hx, rfl⟩
      obtain ⟨a, ha⟩ := h1 w hw
      exact ⟨a, hwu ▸ h w hw, hwu ▸ ha⟩
  rcases createWorkspace_cases fits u name active settings fixed t with
    ⟨b, w, hb, hname, -, hu, hwb, heq⟩ | ⟨hno, heq⟩
  · rw [hvalue] at hb
    rw [heq, htruthy]
    cases b with
    | true =>
      simp only [hname, hb, and_self, true_or, iff_true, List.forall_mem_append,
        List.forall_mem_singleton]
      have hnone : ∀ v ∈ roomFor u true t.rows, v.userId = w.userId → v.active = false := by
        simp only [roomFor, if_true, mem_updateWhere]
        grind [own, deactivate]
      have hactive := isActive_append_active hwb hnone
      refine ⟨fun x hx => ?_, ⟨w, hactive⟩⟩
      by_cases hxu : x.userId = w.userId
      · exact ⟨w, hxu ▸ hactive⟩
      · obtain ⟨y, hy, hyx⟩ := (mem_roomFor_user ..).mp ⟨x, hx, rfl⟩
        obtain ⟨a, ha⟩ := h1 y hy
        exact ⟨a, (isActive_append_other (Ne.symm hxu)).mpr
          (isActive_roomFor.mpr ⟨hu ▸ hxu, hyx ▸ ha⟩)⟩
    | false =>
      simp only [hname, hb, isActive_append_inactive hwb, List.forall_mem_append,
        List.forall_mem_singleton]
      simp only [isActive_roomFor, hu]
      simp
  · rw [hvalue] at hno
    simp only [heq, htruthy, hroom]
    have hsome : ∀ b, ¬ (acceptsName fits t.rows u name = true ∧ active.boolean = some b) :=
      fun b h => hno ⟨h.1, by simp [h.2]⟩
    simp [hsome]

/-- A creation keeps the property exactly if it is safe. -/
theorem postWorkspace_iff (hk : Keys t) (h1 : OneActive t) (p : Params) :
    (OneActive (postWorkspace fits u p t).2 ∧ OthersKept u t (postWorkspace fits u p t).2) ↔
      PostSafe fits u p t := by
  obtain ⟨name, active, settings⟩ := p
  cases name with
  | none => simp [postWorkspace, PostSafe, h1, OthersKept]
  | some name =>
  cases active with
  | none => simp [postWorkspace, PostSafe, h1, OthersKept]
  | some active =>
  cases settings with
  | none => simp [postWorkspace, PostSafe, h1, OthersKept]
  | some settings =>
    by_cases hvalid : createValid ⟨some name, some active, some settings⟩ = true
    · simp only [postWorkspace, PostSafe, hvalid, if_true, createWorkspace_others, and_true,
        Option.some.injEq]
      by_cases htruthy : active.truthy = true
      · rw [createWorkspace_active fits hk h1 htruthy]
        grind
      · have := createWorkspace_inactive fits (u := u) hk h1
          (Bool.not_eq_true _ ▸ htruthy) name settings false
        grind
    · simp [postWorkspace, PostSafe, hvalid, h1, OthersKept]

/-- A login keeps the property. -/
theorem login_keeps (hk : Keys t) (h1 : OneActive t) (u : ℕ) :
    OneActive (login fits u t).2 ∧ OthersKept u t (login fits u t).2 := by
  rw [login]
  split
  · exact ⟨h1, fun _ _ => rfl⟩
  · rename_i hnone
    refine ⟨(createWorkspace_active fits hk h1 rfl ..).mpr (.inr ⟨?_, by simp [jsonTrue]⟩),
      createWorkspace_others fits u _ _ _ _ t⟩
    simpa using hnone

/-! ### Updates -/

/-- An update of one row: it keeps the keys. -/
structure KeepsKeys (g : Workspace → Workspace) : Prop where
  id : ∀ w, (g w).id = w.id
  userId : ∀ w, (g w).userId = w.userId

theorem updateRow_some {rows rows' : List Workspace} {w : Workspace} {name : Option String}
    {active : Option Scalar} (h : updateRow fits rows w name active = some rows') :
    ∃ g, KeepsKeys g ∧ rows' = updateWhere (fun v => v.id == w.id) g rows ∧
      (active = none → ∀ v, (g v).active = v.active) ∧
      ∀ value, active = some value → ∀ v, value.boolean = some (g v).active := by
  simp only [updateRow] at h
  split at h
  · cases active with
    | none =>
      obtain rfl := Option.some.inj h
      exact ⟨fun v => { v with name := name.getD v.name }, ⟨fun _ => rfl, fun _ => rfl⟩, rfl,
        by simp, by simp⟩
    | some value =>
      obtain ⟨b, hb, rfl⟩ := Option.map_eq_some_iff.mp h
      exact ⟨fun v => { v with name := name.getD v.name, active := b },
        ⟨fun _ => rfl, fun _ => rfl⟩, rfl, by simp, by simp [hb]⟩
  · simp at h

theorem updateRow_isSome (rows : List Workspace) (w : Workspace) (name : Option String)
    (active : Option Scalar) :
    (updateRow fits rows w name active).isSome = acceptsUpdate fits rows w name active := by
  simp only [updateRow, acceptsUpdate]
  split
  · rename_i hname
    rw [hname]
    cases active <;> simp
  · rename_i hname
    simp [hname]

/-- Deactivating all the workspaces does not change whether the row takes the update. -/
theorem updateRow_deactivate (rows : List Workspace) (w : Workspace) (name : Option String)
    (active : Option Scalar) :
    (updateRow fits (updateWhere Workspace.active deactivate rows) w name active).isSome =
      (updateRow fits rows w name active).isSome := by
  have hothers : (updateWhere Workspace.active deactivate rows).filter (fun v => v.id != w.id) =
      updateWhere Workspace.active deactivate (rows.filter fun v => v.id != w.id) := by
    simp only [updateWhere, List.filter_map]
    congr 2
    funext v
    by_cases hv : v.active = true <;> simp [hv, deactivate]
  have hname : ∀ rows : List Workspace, ∀ n,
      acceptsName fits (updateWhere Workspace.active deactivate rows) w.userId n =
        acceptsName fits rows w.userId n :=
    fun rows n => acceptsName_updateWhere fun _ => ⟨rfl, rfl⟩
  simp only [updateRow, hothers, hname]
  split
  · cases active <;> simp
  · rfl

theorem updateWhere_updateWhere {rows : List Workspace} {id : ℕ} {f g : Workspace → Workspace}
    (hf : KeepsKeys f) :
    updateWhere (fun v => v.id == id) g (updateWhere (fun v => v.id == id) f rows) =
      updateWhere (fun v => v.id == id) (g ∘ f) rows := by
  simp only [updateWhere, List.map_map]
  refine List.map_congr_left fun v _ => ?_
  by_cases hv : v.id = id <;> simp [hv, hf.id]

/-- What an update leaves behind: nothing changed, the row of the workspace was written
without a change of its activity, or an activation that went through or did not. -/
theorem putWorkspace_cases {id : ℕ} {p : Params} {w : Workspace}
    (hw : findWorkspace t u id = some w) :
    (¬ Activates w p ∧ (putWorkspace fits u id p t).2 = t) ∨
    (¬ Activates w p ∧ ∃ g, KeepsKeys g ∧ (∀ v, v.active = w.active → (g v).active = v.active) ∧
      (putWorkspace fits u id p t).2 =
        ⟨updateWhere (fun v => v.id == w.id) g t.rows, t.nextId⟩) ∨
    (Activates w p ∧ (updateRow fits t.rows w p.name p.active).isSome = false ∧
      (putWorkspace fits u id p t).2 =
        ⟨updateWhere Workspace.active deactivate t.rows, t.nextId⟩) ∨
    (Activates w p ∧ (updateRow fits t.rows w p.name p.active).isSome = true ∧
      ∃ g, KeepsKeys g ∧ (∀ v, (g v).active = true) ∧ (putWorkspace fits u id p t).2 =
        ⟨updateWhere (fun v => v.id == w.id) g
          (updateWhere Workspace.active deactivate t.rows), t.nextId⟩) := by
  have hid : w.id = id := by
    have := List.find?_some hw
    simp_all
  subst hid
  simp only [putWorkspace, hw]
  split
  · rename_i hvalid
    have hone : ∀ value, p.active = some value → value.isOne = true := by
      intro value hvalue
      simp only [updateValid, hvalue, Option.all_some, checkFlag, Bool.and_eq_true] at hvalid
      exact hvalid.1.2
    split
    · rename_i hno
      exact .inl ⟨fun h => h.2.1 hno, rfl⟩
    · rename_i hsettings
      by_cases hact : (p.active.any Scalar.truthy && !w.active) = true
      · have hactivates : Activates w p := by
          simp only [Bool.and_eq_true, Bool.not_eq_true'] at hact
          exact ⟨hvalid, hsettings, hact.1, hact.2⟩
        simp only [hact, if_true]
        have hsome := updateRow_deactivate fits t.rows w p.name p.active
        split
        · rename_i hrow
          rw [hrow] at hsome
          exact .inr (.inr (.inl ⟨hactivates, hsome.symm, rfl⟩))
        · rename_i rows hrow
          rw [hrow] at hsome
          obtain ⟨g, hg, rfl, -, hvalue⟩ := updateRow_some fits hrow
          refine .inr (.inr (.inr ⟨hactivates, hsome.symm, _, ?_, ?_,
            congrArg (Table.mk · _) (updateWhere_updateWhere hg)⟩))
          · exact ⟨hg.id, hg.userId⟩
          · intro v
            obtain ⟨value, hv⟩ : ∃ value, p.active = some value := by
              cases hp : p.active <;> simp_all
            have := value.boolean_of_isOne (hone value hv)
            have := hvalue value hv v
            show (g v).active = true
            cases hb : (g v).active <;> simp_all
      · have hactivates : ¬ Activates w p := by
          rintro ⟨-, -, htruthy, hinactive⟩
          exact hact (by simp [htruthy, hinactive])
        simp only [hact, Bool.false_eq_true, if_false]
        split
        · exact .inl ⟨hactivates, rfl⟩
        · rename_i rows hrow
          obtain ⟨g, hg, rfl, hnone, hvalue⟩ := updateRow_some fits hrow
          refine .inr (.inl ⟨hactivates, _, ?_, ?_,
            congrArg (Table.mk · _) (updateWhere_updateWhere hg)⟩)
          · exact ⟨hg.id, hg.userId⟩
          · intro v hv
            show (g v).active = v.active
            cases hp : p.active with
            | none => exact hnone hp v
            | some value =>
              have hval := hone value hp
              have hbool := value.boolean_of_isOne hval
              have htruthy := value.truthy_of_isOne hval
              have hwact : w.active = true := by
                simpa [hp, htruthy] using hact
              have := hvalue value hp v
              cases hb : (g v).active <;> simp_all
  · rename_i hvalid
    exact .inl ⟨fun h => hvalid h.1, rfl⟩

theorem findWorkspace_some {id : ℕ} {w : Workspace} (hw : findWorkspace t u id = some w) :
    w ∈ t.rows ∧ w.id = id ∧ w.userId = u := by
  have h := List.find?_some hw
  simp only [Bool.and_eq_true, beq_iff_eq] at h
  exact ⟨List.mem_of_find?_eq_some hw, h⟩

theorem map_id_deactivate {rows : List Workspace} :
    (updateWhere Workspace.active deactivate rows).map Workspace.id = rows.map Workspace.id :=
  map_id_updateWhere fun _ => rfl

theorem putWorkspace_keys (hk : Keys t) (u id : ℕ) (p : Params) :
    Keys (putWorkspace fits u id p t).2 := by
  cases hw : findWorkspace t u id with
  | none => simpa only [putWorkspace, hw] using hk
  | some w =>
    rcases putWorkspace_cases fits (p := p) hw with ⟨-, heq⟩ | ⟨-, g, hg, -, heq⟩ |
      ⟨-, -, heq⟩ | ⟨-, -, g, hg, -, heq⟩
    · rw [heq]
      exact hk
    · rw [heq]
      exact hk.of_map_id (map_id_updateWhere hg.id) le_rfl
    · rw [heq]
      exact hk.of_map_id map_id_deactivate le_rfl
    · rw [heq]
      exact hk.of_map_id ((map_id_updateWhere hg.id).trans map_id_deactivate) le_rfl

/-- A write that keeps the users and the activities keeps the property. -/
theorem oneActive_map {rows : List Workspace} {n m : ℕ} {f : Workspace → Workspace}
    (h1 : OneActive ⟨rows, n⟩)
    (hf : ∀ w ∈ rows, (f w).userId = w.userId ∧ (f w).active = w.active) :
    OneActive ⟨rows.map f, m⟩ := by
  intro v hv
  obtain ⟨x, hx, hxv⟩ := hv
  obtain ⟨w, hw, rfl⟩ := List.mem_map.mp hx
  have hcount : (rows.map f).countP (own v) = rows.countP (own v) := by
    rw [List.countP_map]
    refine List.countP_congr fun y hy => ?_
    simp [own, hf y hy]
  exact hcount.trans (h1 v ⟨w, hw, (hf w hw).1 ▸ hxv⟩)

/-- With every workspace deactivated, no user with a workspace has an active one. -/
theorem not_oneActive_deactivate {w : Workspace} (hw : w ∈ t.rows) (n : ℕ) :
    ¬ OneActive ⟨updateWhere Workspace.active deactivate t.rows, n⟩ := by
  intro h1
  have hcount := h1 w.userId ⟨_, mem_updateWhere.mpr ⟨w, hw, rfl⟩, by
    by_cases hact : w.active = true <;> simp [hact, deactivate]⟩
  have hnone : (updateWhere Workspace.active deactivate t.rows).countP (own w.userId) = 0 := by
    refine List.countP_eq_zero.mpr fun x hx => ?_
    obtain ⟨y, -, rfl⟩ := mem_updateWhere.mp hx
    by_cases hact : y.active = true <;> simp [own, hact, deactivate]
  exact absurd (hcount.symm.trans hnone) Nat.one_ne_zero

/-- After an activation that goes through only its user has an active workspace. -/
theorem oneActive_activated (hk : Keys t) (h1 : OneActive t) {w : Workspace} (hw : w ∈ t.rows)
    {g : Workspace → Workspace} (hg : KeepsKeys g) (hact : ∀ v, (g v).active = true) :
    OneActive ⟨updateWhere (fun v => v.id == w.id) g
        (updateWhere Workspace.active deactivate t.rows), t.nextId⟩ ↔
      ∀ v ∈ t.rows, v.userId ≠ w.userId → v.active = false := by
  have hk' : Keys ⟨updateWhere (fun v => v.id == w.id) g
      (updateWhere Workspace.active deactivate t.rows), t.nextId⟩ :=
    hk.of_map_id ((map_id_updateWhere hg.id).trans map_id_deactivate) le_rfl
  have hmem : ∀ x, x ∈ updateWhere (fun v => v.id == w.id) g
      (updateWhere Workspace.active deactivate t.rows) → ∃ y ∈ t.rows, x.id = y.id ∧
        x.userId = y.userId ∧ (x.active = true ↔ y.id = w.id) := by
    intro x hx
    obtain ⟨y, hy, rfl⟩ := mem_updateWhere.mp hx
    obtain ⟨z, hz, rfl⟩ := mem_updateWhere.mp hy
    refine ⟨z, hz, ?_⟩
    by_cases hid : z.id = w.id <;> by_cases hza : z.active = true <;>
      simp [deactivate, hid, hza, hg.id, hg.userId, hact]
  have hmem' : ∀ y ∈ t.rows, ∃ x ∈ updateWhere (fun v => v.id == w.id) g
      (updateWhere Workspace.active deactivate t.rows), x.id = y.id ∧
        x.userId = y.userId ∧ (x.active = true ↔ y.id = w.id) := by
    intro z hz
    refine ⟨_, mem_updateWhere.mpr ⟨_, mem_updateWhere.mpr ⟨z, hz, rfl⟩, rfl⟩, ?_⟩
    by_cases hid : z.id = w.id <;> by_cases hza : z.active = true <;>
      simp [deactivate, hid, hza, hg.id, hg.userId, hact]
  rw [oneActive_iff hk']
  rw [oneActive_iff hk] at h1
  constructor
  · intro h v hv hne
    obtain ⟨x, hx, -, hxu, -⟩ := hmem' v hv
    obtain ⟨a, ha, hau, haa, -⟩ := h x hx
    obtain ⟨y, hy, -, hay, hyw⟩ := hmem a ha
    have hyw := hk.eq_of_id hy hw (hyw.mp haa)
    exact absurd (hxu.symm.trans (hau.symm.trans (hay.trans (hyw ▸ rfl)))) hne
  · intro h x hx
    obtain ⟨y, hy, -, hxu, -⟩ := hmem x hx
    have hyu : y.userId = w.userId := by
      by_contra hne
      obtain ⟨a, ha, hau, haa, -⟩ := h1 y hy
      have := h a ha (hau ▸ hne)
      simp_all
    obtain ⟨a, ha, haid, hau, haw⟩ := hmem' w hw
    refine ⟨a, ha, hau.trans (hyu.symm.trans hxu.symm), haw.mpr rfl, ?_⟩
    intro b hb _ hba
    obtain ⟨z, -, hbz, -, hzw⟩ := hmem b hb
    rw [hbz, haid, hzw.mp hba]

/-- An update keeps the property exactly if it is safe. -/
theorem putWorkspace_iff (hk : Keys t) (h1 : OneActive t) (id : ℕ) (p : Params) :
    (OneActive (putWorkspace fits u id p t).2 ∧ OthersKept u t (putWorkspace fits u id p t).2) ↔
      PutSafe fits u id p t := by
  cases hw : findWorkspace t u id with
  | none => simp [putWorkspace, PutSafe, hw, h1, OthersKept]
  | some w =>
    obtain ⟨hmem, rfl, hu⟩ := findWorkspace_some hw
    have hsafe : PutSafe fits u w.id p t ↔ (Activates w p →
        (∀ v ∈ t.rows, v.userId ≠ u → v.active = false) ∧
          (updateRow fits t.rows w p.name p.active).isSome = true) := by
      simp only [PutSafe, hw, Option.some.injEq, forall_eq', updateRow_isSome]
    rw [hsafe]
    rcases putWorkspace_cases fits (p := p) hw with ⟨hno, heq⟩ | ⟨hno, g, hg, hact, heq⟩ |
      ⟨hyes, hrow, heq⟩ | ⟨hyes, hrow, g, hg, hact, heq⟩
    · simp [heq, hno, h1, OthersKept]
    · have hrow : ∀ x ∈ t.rows, (x.id == w.id) = true → x = w := by
        intro x hx hid
        exact hk.eq_of_id hx hmem (beq_iff_eq.mp hid)
      simp only [heq, hno, false_imp_iff, iff_true]
      constructor
      · refine oneActive_map h1 fun x hx => ?_
        by_cases hid : (x.id == w.id) = true
        · simp [hid, hg.userId, hact x (hrow x hx hid ▸ rfl)]
        · simp [hid]
      · intro v hv
        refine filter_updateWhere hg.userId fun x hx hid => ?_
        rw [hrow x hx hid, hu]
        exact Ne.symm hv
    · simp [heq, hyes, hrow, not_oneActive_deactivate hmem]
    · have h1' := oneActive_activated hk h1 hmem hg hact
      rw [hu] at h1'
      rw [heq, h1']
      simp only [hyes, hrow, true_imp_iff, and_true, and_iff_left_iff_imp]
      intro hothers v hv
      refine (filter_updateWhere hg.userId fun x hx hid => ?_).trans
        (filter_updateWhere (fun _ => rfl) fun x hx hxa hxv => ?_)
      · obtain ⟨y, hy, rfl⟩ := mem_updateWhere.mp hx
        have hid' : y.id = w.id := by
          by_cases hya : y.active = true <;> simpa [hya, deactivate] using hid
        have hyw := hk.eq_of_id hy hmem hid'
        subst hyw
        by_cases hya : y.active = true <;> simp [hya, deactivate, hu, Ne.symm hv]
      · have := hothers x hx (hxv ▸ hv)
        simp_all

/-! ### Deletions -/

theorem minId_spec {rows : List Workspace} {w : Workspace} (hw : w ∈ rows) (hu : w.userId = u) :
    ∃ z ∈ rows, z.userId = u ∧ minId rows u = some z.id ∧
      ∀ v ∈ rows, v.userId = u → z.id ≤ v.id := by
  have hmem : w.id ∈ (rows.filter fun v => v.userId == u).map Workspace.id :=
    List.mem_map_of_mem (by simp [hw, hu])
  cases hmin : minId rows u with
  | none =>
    rw [minId, List.min?_eq_none_iff] at hmin
    simp [hmin] at hmem
  | some m =>
    obtain ⟨hm, hle⟩ := List.min?_eq_some_iff.mp hmin
    obtain ⟨z, hz, rfl⟩ := List.mem_map.mp hm
    simp only [List.mem_filter, beq_iff_eq] at hz
    refine ⟨z, hz.1, hz.2, rfl, fun v hv hvu => hle _ (List.mem_map_of_mem ?_)⟩
    simp [hv, hvu]

def activate (w : Workspace) : Workspace := { w with active := true }

/-- What a deletion leaves: nothing changed, an inactive row gone, or the active row gone
after the first row of the user was activated. -/
theorem deleteWorkspace_cases {id : ℕ} {w : Workspace} (hw : findWorkspace t u id = some w) :
    (w.fixed = true ∧ (deleteWorkspace u id t).2 = t) ∨
    (w.fixed = false ∧ w.active = false ∧
      (deleteWorkspace u id t).2 = ⟨t.rows.filter fun v => v.id != w.id, t.nextId⟩) ∨
    (w.fixed = false ∧ w.active = true ∧ ∃ z ∈ t.rows, z.userId = u ∧
      (∀ v ∈ t.rows, v.userId = u → z.id ≤ v.id) ∧
      (deleteWorkspace u id t).2 = ⟨(updateWhere (fun v => v.id == z.id) activate t.rows).filter
        fun v => v.id != w.id, t.nextId⟩) := by
  obtain ⟨hmem, rfl, hu⟩ := findWorkspace_some hw
  cases hfixed : w.fixed with
  | true => exact .inl ⟨rfl, by simp [deleteWorkspace, hw, hfixed]⟩
  | false =>
    cases hact : w.active with
    | false => exact .inr (.inl ⟨rfl, rfl, by simp [deleteWorkspace, hw, hfixed, hact]⟩)
    | true =>
      obtain ⟨z, hz, hzu, hmin, hle⟩ := minId_spec hmem hu
      refine .inr (.inr ⟨rfl, rfl, z, hz, hzu, hle, ?_⟩)
      simp only [deleteWorkspace, hw, hfixed, hact, hmin, Bool.false_eq_true, if_false, if_true]
      rfl

theorem Keys.filter (hk : Keys t) (p : Workspace → Bool) : Keys ⟨t.rows.filter p, t.nextId⟩ := by
  constructor
  · exact hk.nodup.sublist (List.filter_sublist.map _)
  · intro w hw
    exact hk.lt w (List.mem_of_mem_filter hw)

theorem deleteWorkspace_keys (hk : Keys t) (u id : ℕ) : Keys (deleteWorkspace u id t).2 := by
  cases hw : findWorkspace t u id with
  | none => simpa only [deleteWorkspace, hw] using hk
  | some w =>
    rcases deleteWorkspace_cases hw with ⟨-, heq⟩ | ⟨-, -, heq⟩ | ⟨-, -, z, -, -, -, heq⟩
    · rw [heq]
      exact hk
    · rw [heq]
      exact hk.filter _
    · rw [heq]
      have hk' : Keys ⟨updateWhere (fun v => v.id == z.id) activate t.rows, t.nextId⟩ :=
        hk.of_map_id (map_id_updateWhere fun _ => rfl) le_rfl
      exact hk'.filter _

/-- Taking out a row of one user keeps the rows of the others. -/
theorem filter_id_user {rows : List Workspace} {id v : ℕ}
    (h : ∀ w ∈ rows, w.id = id → w.userId ≠ v) :
    (rows.filter fun w => w.id != id).filter (fun w => w.userId == v) =
      rows.filter fun w => w.userId == v := by
  rw [List.filter_filter]
  refine List.filter_congr fun w hw => ?_
  have := h w hw
  by_cases hid : w.id = id <;> simp_all

/-- A deletion keeps the property exactly if it is safe. -/
theorem deleteWorkspace_iff (hk : Keys t) (h1 : OneActive t) (id : ℕ) :
    (OneActive (deleteWorkspace u id t).2 ∧ OthersKept u t (deleteWorkspace u id t).2) ↔
      DeleteSafe u id t := by
  have hk' := deleteWorkspace_keys hk u id
  cases hw : findWorkspace t u id with
  | none => simp [deleteWorkspace, DeleteSafe, hw, h1, OthersKept]
  | some w =>
    obtain ⟨hmem, rfl, hu⟩ := findWorkspace_some hw
    have hsafe : DeleteSafe u w.id t ↔ (w.fixed = false → w.active = true →
        (∃ v ∈ t.rows, v.userId = u ∧ v.id < w.id) ∨ ∀ v ∈ t.rows, v.userId = u → v.id = w.id) := by
      simp only [DeleteSafe, hw, Option.some.injEq, forall_eq']
    rw [hsafe]
    have hrow : ∀ x ∈ t.rows, x.id = w.id → x = w := fun x hx => hk.eq_of_id hx hmem
    rcases deleteWorkspace_cases hw with ⟨hfixed, heq⟩ | ⟨hfixed, hact, heq⟩ |
      ⟨hfixed, hact, z, hz, hzu, hle, heq⟩
    · simp [heq, hfixed, h1, OthersKept]
    · simp only [hact, Bool.false_eq_true, false_imp_iff, implies_true, iff_true]
      constructor
      · rw [oneActive_iff hk', heq]
        rw [oneActive_iff hk] at h1
        intro x hx
        obtain ⟨hx, -⟩ := List.mem_filter.mp hx
        obtain ⟨a, ha, hau, haa, hall⟩ := h1 x hx
        refine ⟨a, List.mem_filter.mpr ⟨ha, ?_⟩, hau, haa,
          fun v hv => hall v (List.mem_of_mem_filter hv)⟩
        simp only [bne_iff_ne, ne_eq]
        intro haw
        simp_all
      · intro v hv
        rw [heq]
        refine filter_id_user fun x hx hid => ?_
        rw [hrow x hx hid, hu]
        exact Ne.symm hv
    · have hsole : ∀ v ∈ t.rows, v.userId = u → v.active = true → v.id = w.id := by
        rw [oneActive_iff hk] at h1
        obtain ⟨a, -, -, -, hall⟩ := h1 w hmem
        intro v hv hvu hva
        rw [hall v hv (hvu.trans hu.symm) hva, hall w hmem rfl hact]
      have hothers : OthersKept u t (deleteWorkspace u w.id t).2 := by
        intro v hv
        rw [heq]
        refine (filter_id_user fun x hx hid => ?_).trans
          (filter_updateWhere (fun _ => rfl) fun x hx hid => ?_)
        · obtain ⟨y, hy, rfl⟩ := mem_updateWhere.mp hx
          have hyw : y = w := by
            refine hrow y hy ?_
            by_cases hid' : (y.id == z.id) = true <;> simpa [hid', activate] using hid
          subst hyw
          by_cases hid' : (y.id == z.id) = true <;> simp [hid', activate, hu, Ne.symm hv]
        · rw [hk.eq_of_id hx hz (beq_iff_eq.mp hid), hzu]
          exact Ne.symm hv
      simp only [hothers, hfixed, hact, and_true, true_imp_iff]
      rw [oneActive_iff hk', heq]
      rw [oneActive_iff hk] at h1
      have hzw := hle w hmem hu
      have hleft : ∀ x ∈ (updateWhere (fun v => v.id == z.id) activate t.rows).filter
          (fun v => v.id != w.id), ∃ y ∈ t.rows, y.id ≠ w.id ∧ x.id = y.id ∧
            x.userId = y.userId ∧ (x.active = true ↔ y.active = true ∨ y.id = z.id) := by
        intro x hx
        obtain ⟨hx, hxw⟩ := List.mem_filter.mp hx
        obtain ⟨y, hy, rfl⟩ := mem_updateWhere.mp hx
        refine ⟨y, hy, ?_⟩
        by_cases hid : y.id = z.id <;> simp_all [activate]
      have hleft' : ∀ y ∈ t.rows, y.id ≠ w.id →
          ∃ x ∈ (updateWhere (fun v => v.id == z.id) activate t.rows).filter
            (fun v => v.id != w.id), x.id = y.id ∧
              x.userId = y.userId ∧ (x.active = true ↔ y.active = true ∨ y.id = z.id) := by
        intro y hy hyw
        refine ⟨_, List.mem_filter.mpr ⟨mem_updateWhere.mpr ⟨y, hy, rfl⟩, ?_⟩, ?_⟩ <;>
          by_cases hid : y.id = z.id <;> simp_all [activate]
      constructor
      · intro h
        by_cases hfirst : z.id = w.id
        · refine .inr fun v hv hvu => ?_
          by_contra hvw
          obtain ⟨x, hx, -, hxu, -⟩ := hleft' v hv hvw
          obtain ⟨a, ha, hau, haa, -⟩ := h x hx
          obtain ⟨y, hy, hyw, -, hya, hyact⟩ := hleft a ha
          rcases hyact.mp haa with hyact | hyz
          · exact hyw (hsole y hy (by rw [← hya, hau, hxu, hvu]) hyact)
          · exact hyw (hyz.trans hfirst)
        · exact .inl ⟨z, hz, hzu, lt_of_le_of_ne hzw hfirst⟩
      · intro h x hx
        obtain ⟨y, hy, hyw, -, hxu, -⟩ := hleft x hx
        by_cases hyu : y.userId = u
        · -- the first workspace of the user takes over
          have hne : z.id ≠ w.id := by
            rcases h with ⟨v, hv, hvu, hlt⟩ | hall
            · have := hle v hv hvu
              omega
            · exact absurd (hall y hy hyu) hyw
          obtain ⟨a, ha, haid, hau, haact⟩ := hleft' z hz hne
          refine ⟨a, ha, by rw [hau, hzu, hxu, hyu], haact.mpr (.inr rfl), ?_⟩
          intro b hb hbu hbact
          obtain ⟨c, hc, hcw, hbc, hbcu, hbcact⟩ := hleft b hb
          rcases hbcact.mp hbact with hcact | hcz
          · exact absurd (hsole c hc (by rw [← hbcu, hbu, hxu, hyu]) hcact) hcw
          · rw [hbc, hcz, haid]
        · obtain ⟨a, ha, hau, haa, hall⟩ := h1 y hy
          have haw : a.id ≠ w.id := by
            intro haw
            rw [hrow a ha haw, hu] at hau
            exact hyu hau.symm
          obtain ⟨b, hb, hbid, hbu, hbact⟩ := hleft' a ha haw
          refine ⟨b, hb, by rw [hbu, hau, hxu], hbact.mpr (.inl haa), ?_⟩
          intro c hc hcu hcact
          obtain ⟨d, hd, -, hcd, hcdu, hcdact⟩ := hleft c hc
          have hdu : d.userId = y.userId := by rw [← hcdu, hcu, hxu]
          rcases hcdact.mp hcact with hdact | hdz
          · rw [hcd, hbid, hall d hd hdu hdact]
          · have hdz := hk.eq_of_id hd hz hdz
            exact absurd (hdu.symm.trans (hdz ▸ hzu)) hyu

/-! ### Runs -/

theorem handle_keys (hk : Keys t) (a : ℕ × Request) : Keys (handle fits a.1 a.2 t).2 := by
  obtain ⟨u, _ | p | ⟨id, p⟩ | id⟩ := a
  · simp only [handle, login]
    split
    · exact hk
    · exact createWorkspace_keys fits hk ..
  · obtain ⟨name, active, settings⟩ := p
    simp only [handle, postWorkspace]
    split
    · split
      · exact createWorkspace_keys fits hk ..
      · exact hk
    · exact hk
  · exact putWorkspace_keys fits hk u id p
  · exact deleteWorkspace_keys hk u id

theorem handle_iff (hk : Keys t) (h1 : OneActive t) (a : ℕ × Request) :
    (OneActive (handle fits a.1 a.2 t).2 ∧ OthersKept a.1 t (handle fits a.1 a.2 t).2) ↔
      Safe fits t a := by
  obtain ⟨u, _ | p | ⟨id, p⟩ | id⟩ := a
  · exact iff_of_true (login_keeps fits hk h1 u) trivial
  · exact postWorkspace_iff fits hk h1 p
  · exact putWorkspace_iff fits hk h1 id p
  · exact deleteWorkspace_iff hk h1 id

/-- The workspaces of every user stay with one active, and out of reach of the others,
exactly in the runs of safe requests. -/
theorem one_active_iff {past : List (Table × (ℕ × Request))} {t : Table}
    (run : (portal fits).Run past t) :
    Always OneActive past t ∧ EachTransition (fun s a t => OthersKept a.1 s t) past t ↔
      AllSteps (Safe fits) past := by
  refine run.always_and_eachTransition_iff (K := Keys) (fun _ h => h) ?_ ?_
  · rintro s a _ hk rfl
    exact handle_keys fits hk a
  · rintro s a _ hk h1 rfl
    exact handle_iff fits hk h1 a

end Steps

/-- An active first workspace. -/
def firstPost : Request := .post ⟨some "office", some jsonTrue, some defaultSettings⟩

/-- Its user ends with the workspace active. -/
theorem one_active_iff_first_post :
    Always OneActive [(⟨[], 1⟩, (7, firstPost))]
        (handle (fun _ => true) 7 firstPost ⟨[], 1⟩).2 ∧
      EachTransition (fun s a t => OthersKept a.1 s t) [(⟨[], 1⟩, (7, firstPost))]
        (handle (fun _ => true) 7 firstPost ⟨[], 1⟩).2 := by
  refine (one_active_iff (fun _ => true) (.extend (.start ?_) rfl)).mpr ?_
  · exact ⟨⟨List.nodup_nil, by simp⟩, by simp [OneActive]⟩
  · simp [AllSteps, Safe, firstPost, PostSafe, acceptsName, jsonTrue]

/-- Two users with an active workspace each; the second has another one. -/
def twoUsers : Table :=
  ⟨[⟨1, 7, "office", false, true, portalParameters⟩, ⟨2, 8, "home", false, true, portalParameters⟩,
    ⟨3, 8, "travel", false, false, portalParameters⟩], 4⟩

/-- The activation of one user's workspace takes the active one from another user. -/
theorem activation_crosses_users :
    ¬ ∀ fits : String → Bool, ∀ past t, (portal fits).Run past t →
      Always OneActive past t ∧ EachTransition (fun s a t => OthersKept a.1 s t) past t := by
  intro h
  have hinit : Keys twoUsers ∧ OneActive twoUsers := by
    refine ⟨⟨by decide, by decide⟩, fun u hu => ?_⟩
    obtain ⟨w, hw, rfl⟩ := hu
    simp only [twoUsers, List.mem_cons, List.not_mem_nil, or_false] at hw
    rcases hw with rfl | rfl | rfl <;> decide
  have hrun := h (fun _ => true) [(twoUsers, (8, .put 3 ⟨none, some jsonTrue, none⟩))] _
    (.extend (.start hinit) rfl)
  have hcount := hrun.1.1 7 ⟨⟨1, 7, "office", false, false, portalParameters⟩, by decide, rfl⟩
  exact absurd hcount (by decide)

end Qvd.PortalWorkspaces
