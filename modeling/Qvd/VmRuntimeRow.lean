import Mathlib.Data.Nat.Notation

/-!
One row of the table vm_runtimes: its columns, the methods of the row objects that
programs keep in memory, and the statements other programs run on the table.
A row object is a copy of the row as last loaded; its update method writes only the
columns whose new value differs from that copy.
-/
namespace Qvd.VmRuntimeRow

inductive VmState
  | stopped | starting | running | stopping | zombie | debugging
deriving DecidableEq, Repr

inductive VmCmd
  | start | stop | busy
deriving DecidableEq, Repr

inductive UserState
  | disconnected | connecting | connected
deriving DecidableEq, Repr

inductive UserCmd
  | abort
deriving DecidableEq, Repr

/-- The state column of host_runtimes. -/
inductive HostState
  | stopped | starting | running | stopping | lost
deriving DecidableEq, Repr

abbrev HostId := ℕ
abbrev Pid := ℕ
abbrev Time := ℕ

/-- The ports and the address a running machine publishes. -/
structure Endpoints where
  vmAddress : Option String
  vmVmaPort : Option ℕ
  vmXPort : Option ℕ
  vmSshPort : Option ℕ
  vmVncPort : Option ℕ
  vmMonPort : Option ℕ
  vmSerialPort : Option ℕ
deriving DecidableEq, Repr

def Endpoints.null : Endpoints :=
  { vmAddress := none, vmVmaPort := none, vmXPort := none, vmSshPort := none,
    vmVncPort := none, vmMonPort := none, vmSerialPort := none }

structure VmRuntime where
  hostId : Option HostId
  currentDiId : Option ℕ
  vmState : VmState
  vmStateTs : Option Time
  vmCmd : Option VmCmd
  vmPid : Option Pid
  userState : UserState
  userStateTs : Option Time
  userCmd : Option UserCmd
  vmaOkTs : Option Time
  l7rHostId : Option HostId
  l7rPid : Option Pid
  endpoints : Endpoints
  vmExpirationSoft : Option Time
  vmExpirationHard : Option Time
deriving DecidableEq, Repr

/-- A row as it is created with its machine. -/
def VmRuntime.fresh : VmRuntime :=
  { hostId := none, currentDiId := none, vmState := .stopped, vmStateTs := none,
    vmCmd := none, vmPid := none, userState := .disconnected, userStateTs := none,
    userCmd := none, vmaOkTs := none, l7rHostId := none, l7rPid := none,
    endpoints := Endpoints.null, vmExpirationSoft := none, vmExpirationHard := none }

section RowObjects

/-- A column after an update: untouched where the object already has the new value. -/
def written {β : Type} [DecidableEq β] (loaded new stored : β) : β :=
  if loaded = new then stored else new

/-- An update through an object that holds the stored value stores the new one. -/
@[simp] theorem written_current {β : Type} [DecidableEq β] (stored new : β) :
    written stored new stored = new := by
  unfold written
  by_cases h : stored = new
  · rw [if_pos h, h]
  · rw [if_neg h]

/-- The errors the row methods die with. -/
inductive MethodError
  | cantSendVmCmd (cmd : VmCmd) (state : VmState)
  | noHostAssigned (cmd : VmCmd)
  | cantSendUserCmd (cmd : UserCmd) (state : UserState)
deriving DecidableEq, Repr

/-- The object and the row after an update. -/
structure Updated where
  object : VmRuntime
  row : VmRuntime
deriving DecidableEq, Repr

/-- The set_user_state call of the takeover. -/
def setConnecting (object row : VmRuntime) (now : Time) (pid : Pid) (host : HostId) : Updated where
  object := { object with userState := .connecting, userStateTs := some now,
                          l7rPid := some pid, l7rHostId := some host, userCmd := none }
  row := { row with
    userState := written object.userState .connecting row.userState
    userStateTs := written object.userStateTs (some now) row.userStateTs
    l7rPid := written object.l7rPid (some pid) row.l7rPid
    l7rHostId := written object.l7rHostId (some host) row.l7rHostId
    userCmd := written object.userCmd none row.userCmd }

/-- The set_user_state call without further columns. -/
def setUserState (object row : VmRuntime) (state : UserState) (now : Time) : Updated where
  object := { object with userState := state, userStateTs := some now }
  row := { row with
    userState := written object.userState state row.userState
    userStateTs := written object.userStateTs (some now) row.userStateTs }

def setHostId (object row : VmRuntime) (host : HostId) : Updated where
  object := { object with hostId := some host }
  row := { row with hostId := written object.hostId (some host) row.hostId }

/-- The update of vm_cmd alone. -/
def updateVmCmd (object row : VmRuntime) (cmd : Option VmCmd) : Updated where
  object := { object with vmCmd := cmd }
  row := { row with vmCmd := written object.vmCmd cmd row.vmCmd }

/-- The table of states in which a command is valid. -/
def validVmCmd : VmCmd → VmState → Bool
  | .start, .stopped => true
  | .stop, .starting => true
  | .stop, .running => true
  | .stop, .debugging => true
  | _, _ => false

def canSendVmCmd (object : VmRuntime) (cmd : VmCmd) : Bool :=
  validVmCmd cmd object.vmState

def sendVmCmd (object row : VmRuntime) (cmd : VmCmd) : Except MethodError Updated :=
  if canSendVmCmd object cmd = false then
    .error (.cantSendVmCmd cmd object.vmState)
  else if object.hostId = none then
    .error (.noHostAssigned cmd)
  else
    .ok (updateVmCmd object row (some cmd))

def sendVmStart (object row : VmRuntime) : Except MethodError Updated :=
  sendVmCmd object row .start

def sendVmStop (object row : VmRuntime) : Except MethodError Updated :=
  sendVmCmd object row .stop

def validUserCmd : UserCmd → UserState → Bool
  | .abort, .connecting => true
  | .abort, .connected => true
  | .abort, .disconnected => false

def sendUserCmd (object row : VmRuntime) (cmd : UserCmd) : Except MethodError Updated :=
  if validUserCmd cmd object.userState = false then
    .error (.cantSendUserCmd cmd object.userState)
  else
    .ok { object := { object with userCmd := some cmd }
          row := { row with userCmd := written object.userCmd (some cmd) row.userCmd } }

def sendUserAbort (object row : VmRuntime) : Except MethodError Updated :=
  sendUserCmd object row .abort

/-- A command goes through only from a valid state and with a host in the object. -/
theorem sendVmCmd_ok {object row : VmRuntime} {cmd : VmCmd} {u : Updated}
    (h : sendVmCmd object row cmd = .ok u) :
    canSendVmCmd object cmd = true ∧ object.hostId ≠ none ∧
      u = updateVmCmd object row (some cmd) := by
  unfold sendVmCmd at h
  by_cases hcan : canSendVmCmd object cmd = false
  · rw [if_pos hcan] at h
    cases h
  · rw [if_neg hcan] at h
    by_cases hhost : object.hostId = none
    · rw [if_pos hhost] at h
      cases h
    · rw [if_neg hhost] at h
      exact ⟨by simpa using hcan, hhost, (Except.ok.inj h).symm⟩

/-- From a valid state and with a host in the object a command goes through. -/
theorem sendVmCmd_of_can {object : VmRuntime} (row : VmRuntime) {cmd : VmCmd}
    (hcan : canSendVmCmd object cmd = true) (hhost : object.hostId ≠ none) :
    sendVmCmd object row cmd = .ok (updateVmCmd object row (some cmd)) := by
  simp [sendVmCmd, hcan, hhost]

/-- A user command changes the command column alone. -/
theorem sendUserCmd_ok {object row : VmRuntime} {cmd : UserCmd} {u : Updated}
    (h : sendUserCmd object row cmd = .ok u) :
    u.row = { row with userCmd := written object.userCmd (some cmd) row.userCmd } := by
  unfold sendUserCmd at h
  by_cases hvalid : validUserCmd cmd object.userState = false
  · rw [if_pos hvalid] at h
    cases h
  · rw [if_neg hvalid] at h
    rw [← Except.ok.inj h]

end RowObjects

section Statements

/-- A statement on the table yields the new row when its condition selects the row. -/
abbrev Statement := VmRuntime → Option VmRuntime

/-- The row after a statement. -/
def Statement.run (s : Statement) (row : VmRuntime) : VmRuntime :=
  (s row).getD row

/-- The update of the L7R agent after its process has exited. -/
def cleanRow (now : Time) (nodeId : HostId) (pid : Pid) : Statement := fun row =>
  if row.l7rHostId = some nodeId ∧ row.l7rPid = some pid then
    some { row with userCmd := none, l7rHostId := none, l7rPid := none,
                    userState := .disconnected, userStateTs := some now }
  else none

/-- The update of the HKD at its start; it leaves the time stamp. -/
def cleanupZombieL7rs (nodeId : HostId) : Statement := fun row =>
  if row.l7rHostId = some nodeId then
    some { row with userCmd := none, l7rHostId := none, l7rPid := none,
                    userState := .disconnected }
  else none

/-- The update of the cluster monitor for connections through lost hosts. -/
def unassignL7rs (now : Time) (hosts : HostId → Option HostState) : Statement := fun row =>
  if row.userState ≠ .disconnected ∧ row.l7rHostId.bind hosts = some .lost then
    some { row with userState := .disconnected, userStateTs := some now, userCmd := none,
                    l7rHostId := none, l7rPid := none }
  else none

/-- The update of the cluster monitor for machines on lost hosts. -/
def unassignVms (hosts : HostId → Option HostState) : Statement := fun row =>
  if row.vmState ≠ .stopped ∧ row.hostId.bind hosts = some .lost then
    some { row with vmState := .stopped, hostId := none, endpoints := Endpoints.null,
                    vmExpirationSoft := none, vmExpirationHard := none, vmaOkTs := none,
                    currentDiId := none }
  else none

/-- The update that consumes a stop command. -/
def loadStopCmds (nodeId : HostId) : Statement := fun row =>
  if row.hostId = some nodeId ∧ row.vmCmd = some .stop then
    some { row with vmCmd := none }
  else none

/-- The update that consumes a start command and puts the machine in state starting. -/
def loadStartCmds (now : Time) (nodeId : HostId) : Statement := fun row =>
  if row.hostId = some nodeId ∧ row.vmCmd = some .start ∧ row.vmState = .stopped then
    some { row with vmCmd := none, vmState := .starting, vmStateTs := some now }
  else none

/-- The update of a machine's handler when its main state changes. -/
def saveState (state : VmState) (now : Time) (nodeId : HostId) : Statement := fun row =>
  if row.hostId = some nodeId then
    some { row with vmState := state, vmStateTs := some now }
  else none

/-- The update of a machine's handler with what the machine has been given; it names the
machine alone and no host. -/
def saveRuntimeRow (endpoints : Endpoints) (vmPid : Option Pid) (diId : Option ℕ) :
    Statement := fun row =>
  some { row with endpoints := endpoints, vmPid := vmPid, currentDiId := diId }

/-- The update of a machine's handler that releases the row. -/
def clearRuntimeRow (nodeId : HostId) : Statement := fun row =>
  if row.hostId = some nodeId then
    some { row with vmState := .stopped, hostId := none, endpoints := Endpoints.null,
                    vmCmd := none, vmExpirationSoft := none, vmExpirationHard := none,
                    currentDiId := none }
  else none

/-- Consuming a stop leaves the state and the host. -/
theorem loadStopCmds_run (nodeId : HostId) (row : VmRuntime) :
    ((loadStopCmds nodeId).run row).vmState = row.vmState ∧
      ((loadStopCmds nodeId).run row).hostId = row.hostId := by
  simp only [Statement.run, loadStopCmds]
  split <;> exact ⟨rfl, rfl⟩

end Statements

end Qvd.VmRuntimeRow
