import Qvd.VmPlacement

/-!
What the columns of one row of vm_runtimes say together, over all writers in any order:
the programs that place and command the machine, its command handler, its machine handler
and the cluster monitor. A program that has written a host and has not yet written the
start is remembered as assigning; it may also die before it does.
-/
namespace Qvd.RowWriters

open Runs VmRuntimeRow PlacementClients VmPlacement

section Law

/-- The law of a row; a placed machine that is stopped waits for its start, or for the
program that has assigned it. -/
structure RowLaw (row : VmRuntime) (assigned : Prop) : Prop where
  idle : row.vmState = .stopped → row.hostId = none →
    row.vmCmd = none ∧ row.endpoints = Endpoints.null ∧ row.vmExpirationSoft = none ∧
      row.vmExpirationHard = none ∧ row.currentDiId = none
  placed : row.vmState ≠ .stopped → row.hostId ≠ none
  awaited : row.vmState = .stopped → row.hostId ≠ none → row.vmCmd = some .start ∨ assigned

/-- A write to host and command alone that takes no host away. -/
def Commanded (row row' : VmRuntime) : Prop :=
  ∃ host cmd, row' = { row with hostId := host, vmCmd := cmd } ∧ (host = none → row.hostId = none)

theorem Commanded.refl (row : VmRuntime) : Commanded row row :=
  ⟨row.hostId, row.vmCmd, rfl, fun h => h⟩

theorem Commanded.trans {r1 r2 r3 : VmRuntime} (h1 : Commanded r1 r2) (h2 : Commanded r2 r3) :
    Commanded r1 r3 := by
  obtain ⟨host, cmd, rfl, hhost⟩ := h1
  obtain ⟨host', cmd', rfl, hhost'⟩ := h2
  exact ⟨host', cmd', rfl, fun h => hhost (hhost' h)⟩

theorem RowLaw.commanded_iff {row row' : VmRuntime} {before after : Prop}
    (hlaw : RowLaw row before) (h : Commanded row row') :
    RowLaw row' after ↔ (row.vmState = .stopped →
      (row'.hostId = none → row'.vmCmd = none) ∧
        (row'.hostId ≠ none → row'.vmCmd = some .start ∨ after)) := by
  obtain ⟨host, cmd, rfl, hhost⟩ := h
  constructor
  · intro h hstopped
    exact ⟨fun hnone => (h.idle hstopped hnone).1, h.awaited hstopped⟩
  · intro h
    refine ⟨?_, ?_, ?_⟩
    · intro hstopped hnone
      exact ⟨(h hstopped).1 hnone, (hlaw.idle hstopped (hhost hnone)).2⟩
    · intro hne hnone
      exact hlaw.placed hne (hhost hnone)
    · intro hstopped hsome
      exact (h hstopped).2 hsome

end Law

section Watching

/-- The main states in which a machine handler saves its state. -/
def handlerStates : List VmState := [.running, .debugging, .stopping, .zombie]

inductive Event (C : Type*)
  | write (a : Action C)
  /-- The program dies; the L7R does so when it finds an abort after the assignment. -/
  | giveUp (c : C)

/-- The row and its writers, with the programs between their assignment and their start. -/
structure Watch (C : Type*) where
  world : World C
  assigning : C → Bool

/-- The assignment that finds the row taken dies; _check_abort reloads the object. -/
def stillAssigning (before : Bool) (object row : VmRuntime) : ClientOp → Bool
  | .load => before
  | .l7rAssign _ =>
    if object.hostId = none then decide (row.hostId = none ∧ row.vmState = .stopped) else before
  | _ => false

variable {C : Type*} [DecidableEq C]

def Watch.assigningAfter (s : Watch C) : Action C → C → Bool
  | .client c op => Function.update s.assigning c
      (stillAssigning (s.assigning c) (s.world.objects c) s.world.row op)
  | _ => s.assigning

def Watch.next (s : Watch C) : Event C → Watch C
  | .write a => { world := perform s.world a, assigning := s.assigningAfter a }
  | .giveUp c => { s with assigning := Function.update s.assigning c false }

def Occurs : Event C → Prop
  | .write (.saveState state _ _) => state ∈ handlerStates
  | _ => True

def Law (s : Watch C) : Prop :=
  RowLaw s.world.row (∃ c, s.assigning c = true)

/-- Runs from any row within the law, with every object just loaded and no assignment
under way. -/
def writers (C : Type*) [DecidableEq C] : System (Watch C) (Event C) where
  init s := (∀ c, s.world.objects c = s.world.row) ∧ (∀ c, s.assigning c = false) ∧ Law s
  step s e s' := Occurs e ∧ s' = s.next e

end Watching

section Conditions

variable {C : Type*} [DecidableEq C]

/-- Another program is between its assignment and its start. -/
def OtherAssigning (s : Watch C) (c : C) : Prop :=
  ∃ d, d ≠ c ∧ s.assigning d = true

/-- The row does not depend on this program's assignment. -/
def Covered (s : Watch C) (c : C) : Prop :=
  s.world.row.vmState = .stopped → s.world.row.hostId ≠ none →
    s.world.row.vmCmd = some .start ∨ OtherAssigning s c

/-- A start written through an object: not on a row that has lost its host meanwhile, and
not left out because the object shows a start that the row has no more. -/
def StartFits (s : Watch C) (c : C) : Prop :=
  s.world.row.vmState = .stopped →
    if (s.world.objects c).hostId ≠ none ∧ s.world.row.hostId = none then
      (s.world.objects c).vmCmd = some .start
    else (s.world.objects c).vmCmd = some .start →
      s.world.row.vmCmd = some .start ∨ OtherAssigning s c

/-- A stop written through an object: on a stopped row only if it is left out, as the
object shows it already. -/
def StopFits (s : Watch C) (c : C) : Prop :=
  s.world.row.vmState = .stopped →
    (s.world.row.hostId = none → (s.world.objects c).vmCmd = some .stop) ∧
      (s.world.row.hostId ≠ none → OtherAssigning s c ∨
        ((s.world.objects c).vmCmd = some .stop ∧ s.world.row.vmCmd = some .start))

/-- The command goes through for this object. -/
def Sends (object : VmRuntime) (cmd : VmCmd) : Prop :=
  canSendVmCmd object cmd = true ∧ object.hostId ≠ none

def ClientFits (s : Watch C) (c : C) : ClientOp → Prop
  | .load => True
  | .apiStart _ =>
    if canSendVmCmd (s.world.objects c) .start = true then StartFits s c else Covered s c
  | .l7rStart =>
    (Sends (s.world.objects c) .start → StartFits s c) ∧
      (¬ Sends (s.world.objects c) .start → Covered s c)
  | .apiStop | .l7rStop =>
    (Sends (s.world.objects c) .stop → StopFits s c) ∧
      (¬ Sends (s.world.objects c) .stop → Covered s c)
  | .apiClear =>
    if (s.world.objects c).vmState = .stopped ∧ (s.world.objects c).vmCmd = some .start then
      s.world.row.vmState = .stopped → s.world.row.hostId ≠ none → OtherAssigning s c
    else Covered s c
  | .l7rAssign _ =>
    (s.world.objects c).hostId = none → Covered s c

/-- When an event keeps the law of the row. -/
def Fits (s : Watch C) : Event C → Prop
  | .write (.client c op) => ClientFits s c op
  | .write .unassignVms => s.world.row.vmState ≠ .stopped →
      s.world.row.hostId.bind s.world.hosts = some .lost → s.world.row.vmCmd = none
  | .write (.saveRuntimeRow endpoints _ diId) => s.world.row.vmState = .stopped →
      s.world.row.hostId = none → endpoints = Endpoints.null ∧ diId = none
  | .giveUp c => Covered s c
  | _ => True

end Conditions

section Programs

variable {C : Type*} [DecidableEq C]

theorem exists_update_iff (f : C → Bool) (c : C) (b : Bool) :
    (∃ d, Function.update f c b d = true) ↔ b = true ∨ ∃ d, d ≠ c ∧ f d = true := by
  constructor
  · rintro ⟨d, hd⟩
    by_cases hdc : d = c
    · rw [hdc, Function.update_self] at hd
      exact Or.inl hd
    · rw [Function.update_of_ne hdc] at hd
      exact Or.inr ⟨d, hdc, hd⟩
  · rintro (hb | ⟨d, hdc, hd⟩)
    · exact ⟨c, by rw [Function.update_self, hb]⟩
    · exact ⟨d, by rw [Function.update_of_ne hdc, hd]⟩

theorem updateVmCmd_commanded (object row : VmRuntime) (cmd : Option VmCmd) :
    Commanded row (updateVmCmd object row cmd).row :=
  ⟨row.hostId, _, rfl, fun h => h⟩

theorem setHostId_commanded (object row : VmRuntime) (host : HostId) :
    Commanded row (setHostId object row host).row := by
  refine ⟨_, row.vmCmd, rfl, ?_⟩
  unfold written
  split
  · exact fun h => h
  · intro h
    cases h

theorem orUnchanged_commanded (object row : VmRuntime) (cmd : VmCmd) :
    Commanded row (orUnchanged object row (sendVmCmd object row cmd)).row := by
  rcases orUnchanged_send object row cmd with h | h
  · rw [h]
    exact updateVmCmd_commanded object row _
  · rw [h]
    exact Commanded.refl row

/-- The programs write nothing but host and command, and take no host away. -/
theorem applyOp_commanded (object row : VmRuntime) (op : ClientOp) :
    Commanded row (applyOp object row op).row := by
  cases op with
  | load => exact Commanded.refl row
  | apiStart freeHost =>
    by_cases hcan : canSendVmCmd object .start = true
    · simp only [applyOp, apiStart_of_can object row freeHost hcan]
      refine Commanded.trans ?_ (updateVmCmd_commanded _ _ _)
      unfold vmAssignHost
      split
      · exact setHostId_commanded object row freeHost
      · exact Commanded.refl row
    · simp only [applyOp, apiStart_of_cannot object row freeHost hcan]
      exact Commanded.refl row
  | apiStop => exact orUnchanged_commanded object row .stop
  | apiClear =>
    simp only [applyOp, apiClear]
    split
    · exact updateVmCmd_commanded object row none
    · exact Commanded.refl row
  | l7rAssign freeHost =>
    simp only [applyOp, l7rAssign]
    split
    · split
      · exact Commanded.refl row
      · exact setHostId_commanded row row freeHost
    · exact Commanded.refl row
  | l7rStart =>
    simp only [applyOp, l7rStart]
    split
    · exact orUnchanged_commanded object row .start
    · exact Commanded.refl row
  | l7rStop =>
    simp only [applyOp, l7rStop]
    split
    · exact Commanded.refl row
    · split
      · exact orUnchanged_commanded object row .stop
      · exact Commanded.refl row

/-- What the law asks of the host and the command a program leaves. -/
theorem law_client_iff {s : Watch C} (hlaw : Law s) (c : C) (op : ClientOp) :
    Law (s.next (.write (.client c op))) ↔ (s.world.row.vmState = .stopped →
      ((applyOp (s.world.objects c) s.world.row op).row.hostId = none →
        (applyOp (s.world.objects c) s.world.row op).row.vmCmd = none) ∧
      ((applyOp (s.world.objects c) s.world.row op).row.hostId ≠ none →
        (applyOp (s.world.objects c) s.world.row op).row.vmCmd = some .start ∨
          stillAssigning (s.assigning c) (s.world.objects c) s.world.row op = true ∨
          OtherAssigning s c)) := by
  show RowLaw (applyOp (s.world.objects c) s.world.row op).row
    (∃ d, Function.update s.assigning c _ d = true) ↔ _
  rw [exists_update_iff]
  exact hlaw.commanded_iff (applyOp_commanded _ _ op)

/-- A program that writes nothing and is not assigning afterwards. -/
theorem law_unwritten_iff {s : Watch C} (hlaw : Law s) (c : C) {op : ClientOp}
    (hrow : (applyOp (s.world.objects c) s.world.row op).row = s.world.row)
    (hstill : stillAssigning (s.assigning c) (s.world.objects c) s.world.row op = false) :
    Law (s.next (.write (.client c op))) ↔ Covered s c := by
  rw [law_client_iff hlaw, hrow, hstill]
  constructor
  · intro h hstopped hhost
    exact ((h hstopped).2 hhost).imp_right (Or.resolve_left · Bool.false_ne_true)
  · intro h hstopped
    exact ⟨fun hnone => (hlaw.idle hstopped hnone).1,
      fun hhost => (h hstopped hhost).imp_right Or.inr⟩

/-- A command column after an update holds a start: the object showed it or it is written. -/
theorem written_eq_start_iff {loaded stored : Option VmCmd} :
    written loaded (some .start) stored = some .start ↔
      (loaded = some .start → stored = some .start) := by
  unfold written
  by_cases h : loaded = some .start <;> simp [h]

/-- A start that is written, with or without a host before it. -/
theorem law_started_iff {s : Watch C} (hlaw : Law s) (c : C) {op : ClientOp}
    (hhost : (applyOp (s.world.objects c) s.world.row op).row.hostId = none ↔
      (s.world.objects c).hostId ≠ none ∧ s.world.row.hostId = none)
    (hcmd : (applyOp (s.world.objects c) s.world.row op).row.vmCmd =
      written (s.world.objects c).vmCmd (some .start) s.world.row.vmCmd)
    (hstill : stillAssigning (s.assigning c) (s.world.objects c) s.world.row op = false) :
    Law (s.next (.write (.client c op))) ↔ StartFits s c := by
  rw [law_client_iff hlaw, hcmd, hstill]
  refine forall_congr' fun hstopped => ?_
  by_cases hlost : (s.world.objects c).hostId ≠ none ∧ s.world.row.hostId = none
  · have hnone := (hlaw.idle hstopped hlost.2).1
    rw [if_pos hlost]
    simp only [hhost.mpr hlost, true_implies, ne_eq, not_true_eq_false, false_implies, and_true]
    unfold written
    by_cases hshown : (s.world.objects c).vmCmd = some .start <;> simp [hshown, hnone]
  · have hsome := mt hhost.mp hlost
    rw [if_neg hlost]
    simp only [hsome, ne_eq, not_false_eq_true, true_implies, false_implies, true_and,
      Bool.false_eq_true, false_or, written_eq_start_iff]
    by_cases hother : OtherAssigning s c <;> simp [hother]

/-- A stop that is written. -/
theorem law_stopped_iff {s : Watch C} (hlaw : Law s) (c : C) {op : ClientOp}
    (hrow : (applyOp (s.world.objects c) s.world.row op).row =
      (updateVmCmd (s.world.objects c) s.world.row (some .stop)).row)
    (hstill : stillAssigning (s.assigning c) (s.world.objects c) s.world.row op = false) :
    Law (s.next (.write (.client c op))) ↔ StopFits s c := by
  rw [law_client_iff hlaw, hrow, hstill]
  refine forall_congr' fun hstopped => ?_
  simp only [updateVmCmd, Bool.false_eq_true, false_or, written]
  refine and_congr (forall_congr' fun hnone => ?_) (forall_congr' fun _ => ?_)
  · have hcmd := (hlaw.idle hstopped hnone).1
    by_cases hshown : (s.world.objects c).vmCmd = some .stop <;> simp [hshown, hcmd]
  · by_cases hshown : (s.world.objects c).vmCmd = some .stop <;> simp [hshown, or_comm]

theorem law_apiStart_iff {s : Watch C} (hlaw : Law s) (c : C) (freeHost : HostId) :
    Law (s.next (.write (.client c (.apiStart freeHost)))) ↔ ClientFits s c (.apiStart freeHost) := by
  simp only [ClientFits]
  by_cases hcan : canSendVmCmd (s.world.objects c) .start = true
  · rw [if_pos hcan]
    refine law_started_iff hlaw c ?_ (apiStart_vmCmd _ _ freeHost hcan) rfl
    show (apiStart _ _ freeHost).row.hostId = none ↔ _
    rw [apiStart_hostId _ _ freeHost hcan]
    by_cases hnone : (s.world.objects c).hostId = none <;> simp [hnone]
  · rw [if_neg hcan]
    exact law_unwritten_iff hlaw c
      (congrArg Updated.row (apiStart_of_cannot _ _ freeHost hcan)) rfl

theorem law_l7rStart_iff {s : Watch C} (hlaw : Law s) (c : C) :
    Law (s.next (.write (.client c .l7rStart))) ↔ ClientFits s c .l7rStart := by
  simp only [ClientFits]
  by_cases hsends : Sends (s.world.objects c) .start
  · have hrow : (applyOp (s.world.objects c) s.world.row .l7rStart).row =
        (updateVmCmd (s.world.objects c) s.world.row (some .start)).row :=
      congrArg Updated.row (l7rStart_of_can _ _ hsends.1 hsends.2)
    have hsome := hsends.2
    rw [law_started_iff hlaw c (by rw [hrow]; simp [updateVmCmd, hsome]) (by rw [hrow]; rfl) rfl]
    simp [hsends]
  · have hrow : (applyOp (s.world.objects c) s.world.row .l7rStart).row = s.world.row :=
      congrArg Updated.row (l7rStart_of_cannot _ _ hsends)
    rw [law_unwritten_iff hlaw c hrow rfl]
    simp [hsends]

/-- A stop goes through to the command column, or nothing is written. -/
theorem sendVmStop_row (object row : VmRuntime) :
    (Sends object .stop → (orUnchanged object row (sendVmStop object row)).row =
        (updateVmCmd object row (some .stop)).row) ∧
      (¬ Sends object .stop → (orUnchanged object row (sendVmStop object row)).row = row) := by
  constructor
  · intro h
    rw [sendVmStop, sendVmCmd_of_can row h.1 h.2]
    rfl
  · intro h
    cases hsend : sendVmStop object row with
    | error e => rfl
    | ok u =>
      obtain ⟨hcan, hhost, -⟩ := sendVmCmd_ok hsend
      exact absurd ⟨hcan, hhost⟩ h

/-- The checks of the L7R before its stop let through what the command itself does. -/
theorem l7rStop_row (object row : VmRuntime) :
    (l7rStop object row).row = (orUnchanged object row (sendVmStop object row)).row := by
  unfold l7rStop
  by_cases hcan : canSendVmCmd object .stop = true
  · have hstate : object.vmState ≠ .stopped := by
      intro h
      rw [canSendVmCmd, h] at hcan
      cases hcan
    rw [if_neg hstate, if_pos hcan]
  · rw [(sendVmStop_row object row).2 (fun h => hcan h.1), if_neg hcan]
    split <;> rfl

theorem law_stop_iff {s : Watch C} (hlaw : Law s) (c : C) {op : ClientOp}
    (hrow : (applyOp (s.world.objects c) s.world.row op).row =
      (orUnchanged (s.world.objects c) s.world.row (sendVmStop (s.world.objects c) s.world.row)).row)
    (hstill : stillAssigning (s.assigning c) (s.world.objects c) s.world.row op = false) :
    Law (s.next (.write (.client c op))) ↔
      (Sends (s.world.objects c) .stop → StopFits s c) ∧
        (¬ Sends (s.world.objects c) .stop → Covered s c) := by
  obtain ⟨hsent, hunsent⟩ := sendVmStop_row (s.world.objects c) s.world.row
  by_cases hsends : Sends (s.world.objects c) .stop
  · rw [law_stopped_iff hlaw c (hrow.trans (hsent hsends)) hstill]
    simp [hsends]
  · rw [law_unwritten_iff hlaw c (hrow.trans (hunsent hsends)) hstill]
    simp [hsends]

theorem law_apiClear_iff {s : Watch C} (hlaw : Law s) (c : C) :
    Law (s.next (.write (.client c .apiClear))) ↔ ClientFits s c .apiClear := by
  simp only [ClientFits]
  by_cases hclears : (s.world.objects c).vmState = .stopped ∧
      (s.world.objects c).vmCmd = some .start
  · have hrow : (applyOp (s.world.objects c) s.world.row .apiClear).row =
        { s.world.row with vmCmd := none } := by
      simp only [applyOp, apiClear, if_pos hclears, updateVmCmd, written]
      rw [if_neg (by simp [hclears.2])]
    rw [if_pos hclears, law_client_iff hlaw, hrow]
    refine forall_congr' fun hstopped => ?_
    simp [stillAssigning]
  · rw [if_neg hclears]
    refine law_unwritten_iff hlaw c ?_ rfl
    simp only [applyOp, apiClear, if_neg hclears]

theorem law_l7rAssign_iff {s : Watch C} (hlaw : Law s) (c : C) (freeHost : HostId) :
    Law (s.next (.write (.client c (.l7rAssign freeHost)))) ↔
      ClientFits s c (.l7rAssign freeHost) := by
  simp only [ClientFits]
  by_cases hnone : (s.world.objects c).hostId = none
  · by_cases hfree : s.world.row.hostId = none ∧ s.world.row.vmState = .stopped
    · -- the assignment goes through, and the row had no host to depend on
      refine iff_of_true ?_ (fun _ _ hsome => absurd hfree.1 hsome)
      rw [law_client_iff hlaw]
      intro _
      refine ⟨?_, fun _ => Or.inr (Or.inl ?_)⟩
      · simp [applyOp, l7rAssign, hnone, hfree, setHostId, written]
      · simp [stillAssigning, hnone, hfree]
    · have htaken : s.world.row.hostId ≠ none ∨ s.world.row.vmState ≠ .stopped :=
        not_and_or.mp hfree
      rw [law_unwritten_iff hlaw c (by simp [applyOp, l7rAssign, hnone, htaken])
        (by simp [stillAssigning, hnone, hfree])]
      simp [hnone]
  · have hsame : s.next (.write (.client c (.l7rAssign freeHost))) = s := by
      simp [Watch.next, Watch.assigningAfter, stillAssigning, perform, World.client, applyOp,
        l7rAssign, hnone]
    rw [hsame]
    exact iff_of_true hlaw (fun h => absurd h hnone)

theorem law_load {s : Watch C} (hlaw : Law s) (c : C) :
    Law (s.next (.write (.client c .load))) := by
  show RowLaw s.world.row (∃ d, Function.update s.assigning c (s.assigning c) d = true)
  rw [Function.update_eq_self]
  exact hlaw

theorem law_program_iff {s : Watch C} (hlaw : Law s) (c : C) (op : ClientOp) :
    Law (s.next (.write (.client c op))) ↔ ClientFits s c op := by
  cases op with
  | load => exact iff_of_true (law_load hlaw c) trivial
  | apiStart freeHost => exact law_apiStart_iff hlaw c freeHost
  | apiStop => exact law_stop_iff hlaw c rfl rfl
  | apiClear => exact law_apiClear_iff hlaw c
  | l7rAssign freeHost => exact law_l7rAssign_iff hlaw c freeHost
  | l7rStart => exact law_l7rStart_iff hlaw c
  | l7rStop => exact law_stop_iff hlaw c (l7rStop_row _ _) rfl

end Programs

section Statements

variable {C : Type*} [DecidableEq C]

/-- A statement leaves the row as it is or with what it has selected. -/
theorem law_exec {row : VmRuntime} {assigned : Prop} {st : Statement}
    (hlaw : RowLaw row assigned)
    (hsel : ∀ row', st row = some row' → RowLaw row' assigned) : RowLaw (st.run row) assigned := by
  unfold Statement.run
  cases h : st row with
  | none => exact hlaw
  | some row' => exact hsel row' h

theorem law_loadStopCmds {row : VmRuntime} {assigned : Prop} (hlaw : RowLaw row assigned)
    (node : HostId) : RowLaw ((loadStopCmds node).run row) assigned := by
  refine law_exec hlaw fun row' hsel => ?_
  obtain ⟨hcond, hrow⟩ := Option.ite_none_right_eq_some.mp hsel
  cases hrow
  refine ⟨?_, hlaw.placed, ?_⟩
  · intro _ hnone
    rw [hcond.1] at hnone
    cases hnone
  · intro hstopped hsome
    rcases hlaw.awaited hstopped hsome with hstart | hassigned
    · rw [hcond.2] at hstart
      cases hstart
    · exact Or.inr hassigned

theorem law_loadStartCmds {row : VmRuntime} {assigned : Prop} (hlaw : RowLaw row assigned)
    (now : Time) (node : HostId) : RowLaw ((loadStartCmds now node).run row) assigned := by
  refine law_exec hlaw fun row' hsel => ?_
  obtain ⟨hcond, hrow⟩ := Option.ite_none_right_eq_some.mp hsel
  cases hrow
  refine ⟨?_, ?_, ?_⟩
  · intro h
    cases h
  · intro _ hnone
    rw [hcond.1] at hnone
    cases hnone
  · intro h
    cases h

theorem law_saveState {row : VmRuntime} {assigned : Prop} (hlaw : RowLaw row assigned)
    {state : VmState} (hstate : state ∈ handlerStates) (now : Time) (node : HostId) :
    RowLaw ((saveState state now node).run row) assigned := by
  have hne : state ≠ .stopped := by
    rintro rfl
    exact absurd hstate (by decide)
  refine law_exec hlaw fun row' hsel => ?_
  obtain ⟨hhost, hrow⟩ := Option.ite_none_right_eq_some.mp hsel
  cases hrow
  refine ⟨fun h => absurd h hne, ?_, fun h => absurd h hne⟩
  intro _ hnone
  rw [hhost] at hnone
  cases hnone

theorem law_clearRuntimeRow {row : VmRuntime} {assigned : Prop} (hlaw : RowLaw row assigned)
    (node : HostId) : RowLaw ((clearRuntimeRow node).run row) assigned := by
  refine law_exec hlaw fun row' hsel => ?_
  obtain ⟨-, hrow⟩ := Option.ite_none_right_eq_some.mp hsel
  cases hrow
  exact ⟨fun _ _ => ⟨rfl, rfl, rfl, rfl, rfl⟩, fun h => absurd rfl h, fun _ h => absurd rfl h⟩

/-- The release of a machine on a lost host leaves the command column. -/
theorem law_unassignVms_iff {row : VmRuntime} {assigned : Prop} (hlaw : RowLaw row assigned)
    (hosts : HostId → Option HostState) :
    RowLaw ((unassignVms hosts).run row) assigned ↔
      (row.vmState ≠ .stopped → row.hostId.bind hosts = some .lost → row.vmCmd = none) := by
  by_cases hsel : row.vmState ≠ .stopped ∧ row.hostId.bind hosts = some .lost
  · have hrow : (unassignVms hosts).run row = { row with
        vmState := .stopped, hostId := none, endpoints := Endpoints.null,
        vmExpirationSoft := none, vmExpirationHard := none, vmaOkTs := none,
        currentDiId := none } := by
      rw [Statement.run, unassignVms, if_pos hsel, Option.getD_some]
    rw [hrow]
    constructor
    · intro h _ _
      exact (h.idle rfl rfl).1
    · intro h
      exact ⟨fun _ _ => ⟨h hsel.1 hsel.2, rfl, rfl, rfl, rfl⟩, fun h => absurd rfl h,
        fun _ h => absurd rfl h⟩
  · have hrow : (unassignVms hosts).run row = row := by
      rw [Statement.run, unassignVms, if_neg hsel, Option.getD_none]
    rw [hrow]
    exact iff_of_true hlaw (fun h1 h2 => absurd ⟨h1, h2⟩ hsel)

/-- What a machine handler has been given is written whether or not the row is still its
own. -/
theorem law_saveRuntimeRow_iff {row : VmRuntime} {assigned : Prop} (hlaw : RowLaw row assigned)
    (endpoints : Endpoints) (vmPid : Option Pid) (diId : Option ℕ) :
    RowLaw ((saveRuntimeRow endpoints vmPid diId).run row) assigned ↔
      (row.vmState = .stopped → row.hostId = none → endpoints = Endpoints.null ∧ diId = none) := by
  constructor
  · intro h hstopped hnone
    obtain ⟨-, hends, -, -, hdi⟩ := h.idle hstopped hnone
    exact ⟨hends, hdi⟩
  · intro h
    refine ⟨?_, hlaw.placed, hlaw.awaited⟩
    intro hstopped hnone
    obtain ⟨hcmd, -, hsoft, hhard, -⟩ := hlaw.idle hstopped hnone
    obtain ⟨hends, hdi⟩ := h hstopped hnone
    exact ⟨hcmd, hends, hsoft, hhard, hdi⟩

theorem law_giveUp_iff {s : Watch C} (hlaw : Law s) (c : C) :
    Law (s.next (.giveUp c)) ↔ Covered s c := by
  show RowLaw s.world.row (∃ d, Function.update s.assigning c false d = true) ↔ _
  rw [exists_update_iff]
  constructor
  · intro h hstopped hsome
    exact (h.awaited hstopped hsome).imp_right (Or.resolve_left · Bool.false_ne_true)
  · intro h
    exact ⟨hlaw.idle, hlaw.placed, fun hstopped hsome => (h hstopped hsome).imp_right Or.inr⟩

/-- An event keeps the law of the row exactly when it fits the state it meets. -/
theorem law_next_iff {s : Watch C} (hlaw : Law s) {e : Event C} (hoccurs : Occurs e) :
    Law (s.next e) ↔ Fits s e := by
  cases e with
  | giveUp c => exact law_giveUp_iff hlaw c
  | write a =>
    cases a with
    | client c op => exact law_program_iff hlaw c op
    | loadStopCmds node => exact iff_of_true (law_loadStopCmds hlaw node) trivial
    | loadStartCmds now node => exact iff_of_true (law_loadStartCmds hlaw now node) trivial
    | saveState state now node => exact iff_of_true (law_saveState hlaw hoccurs now node) trivial
    | saveRuntimeRow endpoints vmPid diId =>
      exact law_saveRuntimeRow_iff hlaw endpoints vmPid diId
    | clearRuntimeRow node => exact iff_of_true (law_clearRuntimeRow hlaw node) trivial
    | unassignVms => exact law_unassignVms_iff hlaw s.world.hosts
    | setHostState host state => exact iff_of_true hlaw trivial

/-- In a run of the writers the row is within the law throughout exactly when every event
fits the state it meets. -/
theorem row_law_iff (past : List (Watch C × Event C)) (s : Watch C)
    (run : (writers C).Run past s) : Always Law past s ↔ AllSteps Fits past := by
  apply run.always_iff_allSteps
  · rintro s ⟨-, -, hlaw⟩
    exact hlaw
  · rintro s e s' hlaw ⟨hoccurs, rfl⟩
    exact law_next_iff hlaw hoccurs

end Statements

section LostHost

/-- A machine without a host, and one program. -/
def idleWatch : Watch Unit where
  world := { row := VmRuntime.fresh, hosts := fun _ => some .running,
             objects := fun _ => VmRuntime.fresh }
  assigning := fun _ => false

theorem fresh_law (assigned : Prop) : RowLaw VmRuntime.fresh assigned :=
  ⟨fun _ _ => ⟨rfl, rfl, rfl, rfl, rfl⟩, fun h => absurd rfl h, fun _ h => absurd rfl h⟩

theorem idleWatch_run : (writers Unit).Run [] idleWatch :=
  System.Run.start ⟨fun _ => rfl, fun _ => rfl, fresh_law _⟩

theorem run_next {C : Type*} [DecidableEq C] {past : List (Watch C × Event C)} {s : Watch C}
    (run : (writers C).Run past s) (e : Event C) (hoccurs : Occurs e) :
    (writers C).Run ((s, e) :: past) (s.next e) :=
  run.extend ⟨hoccurs, rfl⟩

def assignedWatch : Watch Unit := idleWatch.next (.write (.client () (.l7rAssign 1)))

def reloadedWatch : Watch Unit := assignedWatch.next (.write (.client () .load))

/-- The L7R assigns the machine, reloads it and starts it. -/
theorem row_law_iff_assign_start : Always Law
    [(reloadedWatch, Event.write (.client () .l7rStart)),
      (assignedWatch, Event.write (.client () .load)),
      (idleWatch, Event.write (.client () (.l7rAssign 1)))]
    (reloadedWatch.next (.write (.client () .l7rStart))) := by
  have h1 := run_next idleWatch_run (.write (.client () (.l7rAssign 1))) trivial
  have h2 := run_next h1 (.write (.client () .load)) trivial
  have h3 := run_next h2 (.write (.client () .l7rStart)) trivial
  refine (row_law_iff _ _ h3).mpr ?_
  intro e he
  simp only [List.mem_cons, List.not_mem_nil, or_false] at he
  rcases he with rfl | rfl | rfl
  · refine ⟨?_, fun h => absurd ⟨by decide, by decide⟩ h⟩
    intro _ _
    rw [if_neg (by decide)]
    intro h
    exact absurd h (by decide)
  · trivial
  · intro _ _ h
    exact absurd rfl h

/-- A machine starts on host 1 and is asked to stop; then host 1 is lost. The row keeps the
stop without a host. -/
theorem lost_host_leaves_stop : ∃ past s, (writers Unit).Run past s ∧
    s.world.row.vmState = .stopped ∧ s.world.row.hostId = none ∧
      s.world.row.vmCmd = some .stop ∧ ¬ Law s := by
  have h1 := run_next idleWatch_run (.write (.client () (.apiStart 1))) trivial
  have h2 := run_next h1 (.write (.loadStartCmds 5 1)) trivial
  have h3 := run_next h2 (.write (.client () .load)) trivial
  have h4 := run_next h3 (.write (.client () .apiStop)) trivial
  have h5 := run_next h4 (.write (.setHostState 1 .lost)) trivial
  have h6 := run_next h5 (.write .unassignVms) trivial
  refine ⟨_, _, h6, by decide, by decide, by decide, ?_⟩
  intro hlaw
  exact absurd (hlaw.idle (by decide) (by decide)).1 (by decide)

end LostHost

end Qvd.RowWriters
