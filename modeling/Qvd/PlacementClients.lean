import Mathlib.Logic.Basic
import Mathlib.Tactic.ByContra
import Qvd.VmRuntimeRow

/-!
The programs that place and command a machine through row objects: vm_start and vm_stop
of the API, and _assign_vm, _start_and_wait_for_vm and _stop_and_wait_for_vm of the L7R.
Each operation is one transaction or one statement on the row and on the program's object.
-/
namespace Qvd.PlacementClients

open VmRuntimeRow

/-- What a program does next with its object; a host is the load balancer's choice. -/
inductive ClientOp
  | load
  | apiStart (freeHost : HostId)
  | apiStop
  | apiClear
  | l7rAssign (freeHost : HostId)
  | l7rStart
  | l7rStop
deriving DecidableEq, Repr

/-- A call of a row method that dies leaves object and row. -/
def orUnchanged (object row : VmRuntime) : Except MethodError Updated → Updated
  | .ok u => u
  | .error _ => ⟨object, row⟩

/-- The host of an object that has none is set, whatever the row has. -/
def vmAssignHost (object row : VmRuntime) (freeHost : HostId) : Updated :=
  if object.hostId = none then setHostId object row freeHost else ⟨object, row⟩

/-- The transaction of vm_start; its checks are made on the object. -/
def apiStart (object row : VmRuntime) (freeHost : HostId) : Updated :=
  if canSendVmCmd object .start then
    let u := vmAssignHost object row freeHost
    orUnchanged object row (sendVmStart u.object u.row)
  else ⟨object, row⟩

/-- The transaction of vm_stop. -/
def apiStop (object row : VmRuntime) : Updated :=
  orUnchanged object row (sendVmStop object row)

/-- What vm_stop does after its transaction: a start not yet consumed is taken back. -/
def apiClear (object row : VmRuntime) : Updated :=
  if object.vmState = .stopped ∧ object.vmCmd = some .start then
    updateVmCmd object row none
  else ⟨object, row⟩

/-- The transaction of _assign_vm reloads the object and checks it. -/
def l7rAssign (object row : VmRuntime) (freeHost : HostId) : Updated :=
  if object.hostId = none then
    if row.hostId ≠ none ∨ row.vmState ≠ .stopped then ⟨row, row⟩
    else setHostId row row freeHost
  else ⟨object, row⟩

def l7rStart (object row : VmRuntime) : Updated :=
  if canSendVmCmd object .start then orUnchanged object row (sendVmStart object row)
  else ⟨object, row⟩

def l7rStop (object row : VmRuntime) : Updated :=
  if object.vmState = .stopped then ⟨object, row⟩
  else if canSendVmCmd object .stop then orUnchanged object row (sendVmStop object row)
  else ⟨object, row⟩

def applyOp (object row : VmRuntime) : ClientOp → Updated
  | .load => ⟨row, row⟩
  | .apiStart freeHost => apiStart object row freeHost
  | .apiStop => apiStop object row
  | .apiClear => apiClear object row
  | .l7rAssign freeHost => l7rAssign object row freeHost
  | .l7rStart => l7rStart object row
  | .l7rStop => l7rStop object row

section Effects

variable (object row : VmRuntime)

/-- A stop through vm_stop or _stop_and_wait_for_vm writes the command or nothing. -/
theorem orUnchanged_send (cmd : VmCmd) :
    orUnchanged object row (sendVmCmd object row cmd) = updateVmCmd object row (some cmd) ∨
      orUnchanged object row (sendVmCmd object row cmd) = ⟨object, row⟩ := by
  cases hsend : sendVmCmd object row cmd with
  | error e => exact Or.inr rfl
  | ok u =>
    obtain ⟨-, -, rfl⟩ := sendVmCmd_ok hsend
    exact Or.inl rfl

/-- After the assignment the object has a host and shows the same state. -/
theorem vmAssignHost_object (freeHost : HostId) :
    (vmAssignHost object row freeHost).object.hostId ≠ none ∧
      canSendVmCmd (vmAssignHost object row freeHost).object .start =
        canSendVmCmd object .start := by
  unfold vmAssignHost
  by_cases hnone : object.hostId = none
  · rw [if_pos hnone]
    exact ⟨by simp [setHostId], rfl⟩
  · rw [if_neg hnone]
    exact ⟨hnone, rfl⟩

/-- Where the object shows the machine stopped, vm_start writes a host and the command. -/
theorem apiStart_of_can (freeHost : HostId) (hcan : canSendVmCmd object .start = true) :
    apiStart object row freeHost = updateVmCmd (vmAssignHost object row freeHost).object
      (vmAssignHost object row freeHost).row (some .start) := by
  obtain ⟨hhost, hsame⟩ := vmAssignHost_object object row freeHost
  simp only [apiStart, hcan, if_true, sendVmStart]
  rw [sendVmCmd_of_can _ (hsame.trans hcan) hhost]
  rfl

theorem apiStart_of_cannot (freeHost : HostId) (hcan : ¬ canSendVmCmd object .start = true) :
    apiStart object row freeHost = ⟨object, row⟩ := by
  simp [apiStart, hcan]

/-- The host after vm_start: the free one where the object has none. -/
theorem apiStart_hostId (freeHost : HostId) (hcan : canSendVmCmd object .start = true) :
    (apiStart object row freeHost).row.hostId =
      if object.hostId = none then some freeHost else row.hostId := by
  rw [apiStart_of_can object row freeHost hcan]
  show (vmAssignHost object row freeHost).row.hostId = _
  unfold vmAssignHost
  by_cases hnone : object.hostId = none
  · simp [hnone, setHostId, written]
  · simp [hnone]

/-- The command after vm_start, unless the object already has it. -/
theorem apiStart_vmCmd (freeHost : HostId) (hcan : canSendVmCmd object .start = true) :
    (apiStart object row freeHost).row.vmCmd =
      written object.vmCmd (some .start) row.vmCmd := by
  rw [apiStart_of_can object row freeHost hcan]
  unfold vmAssignHost
  split <;> rfl

theorem l7rStart_of_can (hcan : canSendVmCmd object .start = true)
    (hhost : object.hostId ≠ none) :
    l7rStart object row = updateVmCmd object row (some .start) := by
  simp only [l7rStart, hcan, if_true, sendVmStart]
  rw [sendVmCmd_of_can _ hcan hhost]
  rfl

theorem l7rStart_of_cannot (h : ¬ (canSendVmCmd object .start = true ∧ object.hostId ≠ none)) :
    l7rStart object row = ⟨object, row⟩ := by
  unfold l7rStart
  by_cases hcan : canSendVmCmd object .start = true
  · have hnone : object.hostId = none := by
      by_contra hhost
      exact h ⟨hcan, hhost⟩
    simp [hcan, sendVmStart, sendVmCmd, hnone, orUnchanged]
  · rw [if_neg hcan]

theorem l7rStart_hostId : (l7rStart object row).row.hostId = row.hostId := by
  by_cases h : canSendVmCmd object .start = true ∧ object.hostId ≠ none
  · rw [l7rStart_of_can object row h.1 h.2]
    rfl
  · rw [l7rStart_of_cannot object row h]

/-- Writing another command than start leaves no start that was not there. -/
theorem updateVmCmd_start {cmd : Option VmCmd} (hcmd : cmd ≠ some .start)
    (h : (updateVmCmd object row cmd).row.vmCmd = some .start) : row.vmCmd = some .start := by
  simp only [updateVmCmd, written] at h
  split at h
  · exact h
  · exact absurd h hcmd

theorem sendStop_row :
    (orUnchanged object row (sendVmStop object row)).row.hostId = row.hostId ∧
      ((orUnchanged object row (sendVmStop object row)).row.vmCmd = some .start →
        row.vmCmd = some .start) := by
  unfold sendVmStop
  rcases orUnchanged_send object row .stop with h | h
  · rw [h]
    exact ⟨rfl, updateVmCmd_start object row (by decide)⟩
  · rw [h]
    exact ⟨rfl, fun hcmd => hcmd⟩

/-- What the operations that do not start a machine write to its row: no host unless it is
stopped, and no start command. -/
theorem applyOp_of_other (op : ClientOp) (hapi : ∀ h, op ≠ .apiStart h) (hl7r : op ≠ .l7rStart) :
    ((applyOp object row op).row.hostId = row.hostId ∨ row.vmState = .stopped) ∧
      ((applyOp object row op).row.vmCmd = some .start → row.vmCmd = some .start) := by
  cases op with
  | load => exact ⟨Or.inl rfl, fun h => h⟩
  | apiStart freeHost => exact absurd rfl (hapi freeHost)
  | l7rStart => exact absurd rfl hl7r
  | apiStop => exact ⟨Or.inl (sendStop_row object row).1, (sendStop_row object row).2⟩
  | apiClear =>
    simp only [applyOp, apiClear]
    split
    · exact ⟨Or.inl rfl, updateVmCmd_start object row (by decide)⟩
    · exact ⟨Or.inl rfl, fun h => h⟩
  | l7rAssign freeHost =>
    simp only [applyOp, l7rAssign]
    split
    · split
      · exact ⟨Or.inl rfl, fun h => h⟩
      · next hfree =>
        rw [not_or, not_not] at hfree
        exact ⟨Or.inr (not_not.mp hfree.2), fun h => h⟩
    · exact ⟨Or.inl rfl, fun h => h⟩
  | l7rStop =>
    simp only [applyOp, l7rStop]
    split
    · exact ⟨Or.inl rfl, fun h => h⟩
    · split
      · exact ⟨Or.inl (sendStop_row object row).1, (sendStop_row object row).2⟩
      · exact ⟨Or.inl rfl, fun h => h⟩

/-- No program moves the state of the machine. -/
theorem applyOp_vmState (op : ClientOp) :
    (applyOp object row op).row.vmState = row.vmState := by
  have hsend : ∀ cmd, (orUnchanged object row (sendVmCmd object row cmd)).row.vmState =
      row.vmState := by
    intro cmd
    rcases orUnchanged_send object row cmd with h | h
    · rw [h]
      rfl
    · rw [h]
  cases op with
  | load => rfl
  | apiStart freeHost =>
    by_cases hcan : canSendVmCmd object .start = true
    · simp only [applyOp, apiStart_of_can object row freeHost hcan, vmAssignHost]
      split <;> rfl
    · simp only [applyOp, apiStart_of_cannot object row freeHost hcan]
  | apiStop => exact hsend .stop
  | apiClear =>
    simp only [applyOp, apiClear]
    split <;> rfl
  | l7rAssign freeHost =>
    simp only [applyOp, l7rAssign]
    split
    · split <;> rfl
    · rfl
  | l7rStart =>
    simp only [applyOp, l7rStart]
    split
    · exact hsend .start
    · rfl
  | l7rStop =>
    simp only [applyOp, l7rStop]
    split
    · rfl
    · split
      · exact hsend .stop
      · rfl

end Effects

end Qvd.PlacementClients
