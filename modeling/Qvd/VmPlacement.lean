import Qvd.PlacementClients
import Qvd.Runs

/-!
All writers of the placement columns of one row: programs with row objects loaded at any
earlier time, the command handlers and machine handlers of every node, and the cluster
monitor. Each transaction and each statement is one step, in any order.
-/
namespace Qvd.VmPlacement

open Runs VmRuntimeRow PlacementClients

structure World (C : Type*) where
  row : VmRuntime
  hosts : HostId → Option HostState
  objects : C → VmRuntime

inductive Action (C : Type*)
  | client (c : C) (op : ClientOp)
  | loadStopCmds (node : HostId)
  | loadStartCmds (now : Time) (node : HostId)
  | saveState (state : VmState) (now : Time) (node : HostId)
  | saveRuntimeRow (endpoints : Endpoints) (vmPid : Option Pid) (diId : Option ℕ)
  | clearRuntimeRow (node : HostId)
  | unassignVms
  | setHostState (host : HostId) (state : HostState)

def World.exec {C : Type*} (w : World C) (s : Statement) : World C :=
  { w with row := s.run w.row }

section System

variable {C : Type*} [DecidableEq C]

def World.client (w : World C) (c : C) (op : ClientOp) : World C :=
  let u := applyOp (w.objects c) w.row op
  { w with row := u.row, objects := Function.update w.objects c u.object }

/-- One transaction or statement; a statement that selects no row changes nothing. -/
def perform (w : World C) : Action C → World C
  | .client c op => w.client c op
  | .loadStopCmds node => w.exec (loadStopCmds node)
  | .loadStartCmds now node => w.exec (loadStartCmds now node)
  | .saveState state now node => w.exec (saveState state now node)
  | .saveRuntimeRow endpoints vmPid diId => w.exec (saveRuntimeRow endpoints vmPid diId)
  | .clearRuntimeRow node => w.exec (clearRuntimeRow node)
  | .unassignVms => w.exec (unassignVms w.hosts)
  | .setHostState host state =>
    { w with hosts := Function.update w.hosts host (some state) }

/-- Runs from any row, with every object just loaded. -/
def placements (C : Type*) [DecidableEq C] : System (World C) (Action C) where
  init w := ∀ c, w.objects c = w.row
  step w a w' := w' = perform w a

end System

section Properties

variable {C : Type*}

/-- The host of a machine that is not stopped changes to NULL alone, by the handler on
that host or by the cluster monitor once the host is lost. -/
def HostKept (w : World C) (a : Action C) (w' : World C) : Prop :=
  w.row.vmState ≠ .stopped → w'.row.hostId ≠ w.row.hostId →
    w'.row.hostId = none ∧
      ((∃ node, a = .clearRuntimeRow node ∧ w.row.hostId = some node) ∨
        (a = .unassignVms ∧ w.row.hostId.bind w.hosts = some .lost))

/-- A stop that is pending on a machine that is not stopped is not replaced by a start. -/
def StopKept (w w' : World C) : Prop :=
  w.row.vmState ≠ .stopped → w.row.vmCmd = some .stop → w'.row.vmCmd ≠ some .start

def Kept (w : World C) (a : Action C) (w' : World C) : Prop :=
  HostKept w a w' ∧ StopKept w w'

/-- A program that writes a start (and a host) through an object finds the machine still
stopped; or it writes no other host than the row has, and no start over a stop. -/
def NoStaleStart (w : World C) : Action C → Prop
  | .client c (.apiStart freeHost) =>
    canSendVmCmd (w.objects c) .start = true → w.row.vmState = .stopped ∨
      (((w.objects c).hostId = none → w.row.hostId = some freeHost) ∧
        (w.row.vmCmd = some .stop → (w.objects c).vmCmd = some .start))
  | .client c .l7rStart =>
    canSendVmCmd (w.objects c) .start = true → (w.objects c).hostId ≠ none →
      w.row.vmState = .stopped ∨
        (w.row.vmCmd = some .stop → (w.objects c).vmCmd = some .start)
  | _ => True

/-- A program that writes a start through an object does it while the machine is stopped. -/
def StartsWhileStopped (w : World C) : Action C → Prop
  | .client c (.apiStart _) => canSendVmCmd (w.objects c) .start = true → w.row.vmState = .stopped
  | .client c .l7rStart => canSendVmCmd (w.objects c) .start = true → w.row.vmState = .stopped
  | _ => True

end Properties

section Keeping

variable {C : Type*}

theorem kept_of_same {w w' : World C} {a : Action C} (hhost : w'.row.hostId = w.row.hostId)
    (hcmd : w'.row.vmCmd = some .start → w.row.vmCmd = some .start) : Kept w a w' := by
  refine ⟨fun _ hne => absurd hhost hne, ?_⟩
  intro _ hstop hstart
  rw [hcmd hstart] at hstop
  cases hstop

/-- A statement of a command handler, a machine handler or the cluster monitor. -/
theorem kept_statement {w : World C} {a : Action C} {s : Statement}
    (hcmd : ∀ row', s w.row = some row' → row'.vmCmd = some .start → w.row.vmCmd = some .start)
    (hhost : ∀ row', s w.row = some row' → row'.hostId = w.row.hostId ∨
      (row'.hostId = none ∧
        ((∃ node, a = .clearRuntimeRow node ∧ w.row.hostId = some node) ∨
          (a = .unassignVms ∧ w.row.hostId.bind w.hosts = some .lost)))) :
    Kept w a (w.exec s) := by
  have hrow : (w.exec s).row = (s w.row).getD w.row := rfl
  cases hsel : s w.row with
  | none =>
    rw [hsel] at hrow
    exact kept_of_same (by rw [hrow]; rfl) (by rw [hrow]; exact fun h => h)
  | some row' =>
    rw [hsel] at hrow
    refine ⟨?_, ?_⟩
    · intro _ hne
      rcases hhost row' hsel with hsame | hnull
      · exact absurd (by rw [hrow]; exact hsame) hne
      · rw [hrow]
        exact hnull
    · intro _ hstop hstart
      rw [hrow] at hstart
      rw [hcmd row' hsel hstart] at hstop
      cases hstop

/-- A start replaces a pending stop unless the object already shows the start. -/
theorem written_start_iff (object row : VmRuntime) :
    (row.vmCmd = some .stop → written object.vmCmd (some .start) row.vmCmd ≠ some .start) ↔
      (row.vmCmd = some .stop → object.vmCmd = some .start) := by
  refine forall_congr' fun hstop => ?_
  rw [hstop]
  unfold written
  by_cases hsame : object.vmCmd = some .start
  · simp [hsame]
  · simp [hsame]

theorem noStaleStart_of_stopped {w : World C} {a : Action C} (h : StartsWhileStopped w a) :
    NoStaleStart w a := by
  cases a with
  | client c op =>
    cases op with
    | apiStart freeHost => exact fun hcan => Or.inl (h hcan)
    | l7rStart => exact fun hcan _ => Or.inl (h hcan)
    | _ => trivial
  | _ => trivial

end Keeping

section Steps

variable {C : Type*} [DecidableEq C]

/-- vm_start keeps host and stop exactly when it is not stale. -/
theorem kept_apiStart_iff (w : World C) (c : C) (freeHost : HostId) :
    Kept w (.client c (.apiStart freeHost)) (w.client c (.apiStart freeHost)) ↔
      NoStaleStart w (.client c (.apiStart freeHost)) := by
  by_cases hcan : canSendVmCmd (w.objects c) .start = true
  · have hhost : (w.client c (.apiStart freeHost)).row.hostId = _ :=
      apiStart_hostId (w.objects c) w.row freeHost hcan
    have hcmd : (w.client c (.apiStart freeHost)).row.vmCmd = _ :=
      apiStart_vmCmd (w.objects c) w.row freeHost hcan
    simp only [Kept, HostKept, StopKept, NoStaleStart, hhost, hcmd, hcan, true_implies]
    by_cases hstopped : w.row.vmState = .stopped
    · simp [hstopped]
    · rw [written_start_iff]
      simp only [hstopped, ne_eq, not_false_eq_true, true_implies, false_or, reduceCtorEq,
        false_and, exists_false, or_self, and_false]
      refine and_congr ?_ Iff.rfl
      by_cases hnone : (w.objects c).hostId = none
      · simp only [hnone, if_true, true_implies, imp_false, not_not]
        exact eq_comm
      · simp [hnone]
  · have hrow : (w.client c (.apiStart freeHost)).row = w.row := by
      show (apiStart (w.objects c) w.row freeHost).row = w.row
      rw [apiStart_of_cannot (w.objects c) w.row freeHost hcan]
    constructor
    · intro _ h
      exact absurd h hcan
    · intro _
      exact kept_of_same (by rw [hrow]) (by rw [hrow]; exact fun h => h)

/-- _start_and_wait_for_vm keeps a stop exactly when it is not stale. -/
theorem kept_l7rStart_iff (w : World C) (c : C) :
    Kept w (.client c .l7rStart) (w.client c .l7rStart) ↔
      NoStaleStart w (.client c .l7rStart) := by
  by_cases hcan : canSendVmCmd (w.objects c) .start = true ∧ (w.objects c).hostId ≠ none
  · have hrow : (w.client c .l7rStart).row =
        (updateVmCmd (w.objects c) w.row (some .start)).row := by
      show (l7rStart (w.objects c) w.row).row = _
      rw [l7rStart_of_can _ _ hcan.1 hcan.2]
    have hhost : (w.client c .l7rStart).row.hostId = w.row.hostId := by
      rw [hrow]
      rfl
    have hcmd : (w.client c .l7rStart).row.vmCmd =
        written (w.objects c).vmCmd (some .start) w.row.vmCmd := by
      rw [hrow]
      rfl
    have hno := hcan.2
    simp only [Kept, HostKept, StopKept, NoStaleStart, hhost, hcmd, hcan.1, written_start_iff]
    by_cases hstopped : w.row.vmState = .stopped
    · simp [hstopped]
    · simp [hstopped, hno]
  · have hrow : (w.client c .l7rStart).row = w.row := by
      show (l7rStart (w.objects c) w.row).row = w.row
      rw [l7rStart_of_cannot _ _ hcan]
    constructor
    · intro _ h1 h2
      exact absurd ⟨h1, h2⟩ hcan
    · intro _
      exact kept_of_same (by rw [hrow]) (by rw [hrow]; exact fun h => h)

/-- The other operations of the programs keep host and stop. -/
theorem kept_client_other (w : World C) (c : C) (op : ClientOp)
    (hapi : ∀ h, op ≠ .apiStart h) (hl7r : op ≠ .l7rStart) :
    Kept w (.client c op) (w.client c op) := by
  obtain ⟨hhost, hcmd⟩ := applyOp_of_other (w.objects c) w.row op hapi hl7r
  refine ⟨?_, ?_⟩
  · intro hstate hne
    exact absurd (hhost.resolve_right hstate) hne
  · intro _ hstop hstart
    rw [hcmd hstart] at hstop
    cases hstop

/-- A step keeps host and stop exactly when it is no stale start. -/
theorem kept_iff (w : World C) (a : Action C) : Kept w a (perform w a) ↔ NoStaleStart w a := by
  cases a with
  | client c op =>
    cases op with
    | apiStart freeHost => exact kept_apiStart_iff w c freeHost
    | l7rStart => exact kept_l7rStart_iff w c
    | load => exact iff_of_true (kept_client_other w c _ (by simp) (by simp)) trivial
    | apiStop => exact iff_of_true (kept_client_other w c _ (by simp) (by simp)) trivial
    | apiClear => exact iff_of_true (kept_client_other w c _ (by simp) (by simp)) trivial
    | l7rAssign h => exact iff_of_true (kept_client_other w c _ (by simp) (by simp)) trivial
    | l7rStop => exact iff_of_true (kept_client_other w c _ (by simp) (by simp)) trivial
  | loadStopCmds node =>
    refine iff_of_true (kept_statement ?_ ?_) trivial
    all_goals
      intro row' hsel
      simp only [loadStopCmds] at hsel
      split at hsel <;> cases hsel
    · intro h
      cases h
    · exact Or.inl rfl
  | loadStartCmds now node =>
    refine iff_of_true (kept_statement ?_ ?_) trivial
    all_goals
      intro row' hsel
      simp only [loadStartCmds] at hsel
      split at hsel <;> cases hsel
    · intro h
      cases h
    · exact Or.inl rfl
  | saveState state now node =>
    refine iff_of_true (kept_statement ?_ ?_) trivial
    all_goals
      intro row' hsel
      simp only [saveState] at hsel
      split at hsel <;> cases hsel
    · exact fun h => h
    · exact Or.inl rfl
  | saveRuntimeRow endpoints vmPid diId =>
    exact iff_of_true (kept_of_same rfl (fun h => h)) trivial
  | clearRuntimeRow node =>
    refine iff_of_true (kept_statement ?_ ?_) trivial
    all_goals
      intro row' hsel
      simp only [clearRuntimeRow] at hsel
      split at hsel <;> cases hsel
    · intro h
      cases h
    · next hhost => exact Or.inr ⟨rfl, Or.inl ⟨node, rfl, hhost⟩⟩
  | unassignVms =>
    refine iff_of_true (kept_statement ?_ ?_) trivial
    all_goals
      intro row' hsel
      simp only [unassignVms] at hsel
      split at hsel <;> cases hsel
    · exact fun h => h
    · next hlost => exact Or.inr ⟨rfl, Or.inr ⟨rfl, hlost.2⟩⟩
  | setHostState host state => exact iff_of_true (kept_of_same rfl (fun h => h)) trivial

end Steps

section TwoClients

/-- A stopped machine without a host, loaded by two programs. -/
def stoppedWorld : World Bool where
  row := VmRuntime.fresh
  hosts := fun _ => some .running
  objects := fun _ => VmRuntime.fresh

/-- The first program places the machine on host 1 and its command handler starts it. -/
def startedWorld : World Bool :=
  perform (perform stoppedWorld (.client true (.apiStart 1))) (.loadStartCmds 5 1)

theorem startedWorld_run : (placements Bool).Run
    [(perform stoppedWorld (.client true (.apiStart 1)), .loadStartCmds 5 1),
      (stoppedWorld, .client true (.apiStart 1))] startedWorld := by
  have h0 : (placements Bool).Run [] stoppedWorld := System.Run.start (fun _ => rfl)
  exact (h0.extend rfl).extend rfl

end TwoClients

end Qvd.VmPlacement
