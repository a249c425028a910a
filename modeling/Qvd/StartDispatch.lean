import Mathlib.Logic.Function.Basic
import Qvd.PlacementClients
import Qvd.Runs

/-!
A start command on its way from the row to a machine handler of one node: the command is
consumed in the database, then dispatched through the table of handlers, while an earlier
handler of the same machine releases the row and leaves the table in separate steps.
-/
namespace Qvd.StartDispatch

open Runs VmRuntimeRow PlacementClients

/-- The states of the command handler; a found command waits there for its dispatch. -/
inductive CommandHandler
  | idle
  | loadingStops
  | stopsLoaded (found : Bool)
  | loadingStarts
  | startsLoaded (found : Bool)
deriving DecidableEq, Repr

/-- A machine handler, by what it has still to do about the row: serve the machine, wait
for _clear_runtime_row, wait for its completion, or leave the table. -/
inductive VmHandler
  | live
  | releasing
  | released
  | finished
deriving DecidableEq, Repr

/-- The main state of the node's HKD. -/
inductive Hkd
  | running
  | stopping
  | killing
deriving DecidableEq, Repr

structure World (C : Type*) where
  row : VmRuntime
  objects : C → VmRuntime
  commands : CommandHandler
  entry : Option VmHandler
  hkd : Hkd

inductive Action (C : Type*)
  | client (c : C) (op : ClientOp)
  | commandTimer
  | execStops
  | dispatchStops
  | execStarts (now : Time)
  | dispatchStarts
  | commandQueryFails
  | saveState (state : VmState) (now : Time)
  | release
  | execClear
  | clearFails
  | clearDone
  | vmStopped
  | hkdStop
  | hkdKill
  | abandon
  | unassignVms (hosts : HostId → Option HostState)

/-- The table's entry after _on_vm_cmd of a start, and whether a handler got a command.
A handler made while the HKD is not running is told to stop, so that it frees the row. -/
def onVmCmdStart (hkd : Hkd) : Option VmHandler → Option VmHandler × Bool
  | some handler => (some handler, false)
  | none => if hkd = .running then (some .live, true) else (some .releasing, true)

section Machine

variable {C : Type*}

namespace World

def exec (w : World C) (s : Statement) : World C :=
  { w with row := s.run w.row }

def setCommands (w : World C) (commands : CommandHandler) : World C :=
  { w with commands := commands }

def setEntry (w : World C) (entry : Option VmHandler) : World C :=
  { w with entry := entry }

def client [DecidableEq C] (w : World C) (c : C) (op : ClientOp) : World C :=
  let u := applyOp (w.objects c) w.row op
  { w with row := u.row, objects := Function.update w.objects c u.object }

/-- The statement that consumes a start tells whether it has selected the row. -/
def execStarts (w : World C) (now : Time) (node : HostId) : World C :=
  (w.exec (loadStartCmds now node)).setCommands
    (.startsLoaded (loadStartCmds now node w.row).isSome)

def execStops (w : World C) (node : HostId) : World C :=
  (w.exec (loadStopCmds node)).setCommands (.stopsLoaded (loadStopCmds node w.row).isSome)

def dispatchStarts (w : World C) (found : Bool) : World C :=
  let w := w.setCommands .idle
  if found then w.setEntry (onVmCmdStart w.hkd w.entry).1 else w

end World

/-- One step of the node named. A stop reaches the machine's handler as an event that only
moves it on by the steps below. -/
inductive Step [DecidableEq C] (node : HostId) : World C → Action C → World C → Prop
  | client {w : World C} {c : C} {op : ClientOp} : Step node w (.client c op) (w.client c op)
  | commandTimer {w : World C} (h : w.commands = .idle) :
      Step node w .commandTimer (w.setCommands .loadingStops)
  | execStops {w : World C} (h : w.commands = .loadingStops) :
      Step node w .execStops (w.execStops node)
  | dispatchStops {w : World C} {found : Bool} (h : w.commands = .stopsLoaded found) :
      Step node w .dispatchStops (w.setCommands .loadingStarts)
  | execStarts {w : World C} {now : Time} (h : w.commands = .loadingStarts) :
      Step node w (.execStarts now) (w.execStarts now node)
  | dispatchStarts {w : World C} {found : Bool} (h : w.commands = .startsLoaded found) :
      Step node w .dispatchStarts (w.dispatchStarts found)
  | commandQueryFails {w : World C}
      (h : w.commands = .loadingStops ∨ w.commands = .loadingStarts) :
      Step node w .commandQueryFails (w.setCommands .idle)
  | saveState {w : World C} {state : VmState} {now : Time} (h : w.entry = some .live)
      (hs : state ≠ .starting) : Step node w (.saveState state now) (w.exec (saveState state now node))
  | release {w : World C} (h : w.entry = some .live) :
      Step node w .release (w.setEntry (some .releasing))
  | execClear {w : World C} (h : w.entry = some .releasing) :
      Step node w .execClear ((w.exec (clearRuntimeRow node)).setEntry (some .released))
  | clearFails {w : World C} (h : w.entry = some .releasing) :
      Step node w .clearFails (w.setEntry (some .live))
  | clearDone {w : World C} (h : w.entry = some .released) :
      Step node w .clearDone (w.setEntry (some .finished))
  | vmStopped {w : World C} (h : w.entry = some .finished) :
      Step node w .vmStopped (w.setEntry none)
  | hkdStop {w : World C} (h : w.hkd = .running) :
      Step node w .hkdStop { w with hkd := .stopping }
  | hkdKill {w : World C} (h : w.hkd = .stopping) :
      Step node w .hkdKill { w with hkd := .killing }
  | abandon {w : World C} {handler : VmHandler} (h : w.entry = some handler)
      (hk : w.hkd = .killing) : Step node w .abandon (w.setEntry (some .finished))
  | unassignVms {w : World C} {hosts : HostId → Option HostState} :
      Step node w (.unassignVms hosts) (w.exec (unassignVms hosts))

/-- Runs of a node that has just come up: no handler, no command on its way and no machine
of this node in state starting. -/
def dispatches (C : Type*) [DecidableEq C] (node : HostId) : System (World C) (Action C) where
  init w := (∀ c, w.objects c = w.row) ∧ w.commands = .idle ∧ w.entry = none ∧
    w.hkd = .running ∧ ¬ (w.row.vmState = .starting ∧ w.row.hostId = some node)
  step := Step node

end Machine

section Properties

variable {C : Type*}

/-- A row in state starting on the node has its start on the way to a handler, or a handler
that has yet to release the row. Killing all handlers ends the node's life. -/
def NoOrphan (node : HostId) (w : World C) : Prop :=
  w.hkd ≠ .killing → w.row.vmState = .starting → w.row.hostId = some node →
    w.commands = .startsLoaded true ∨ w.entry = some .live ∨ w.entry = some .releasing

/-- The dispatch of a start that was consumed gives a command to a handler. -/
def StartReceived (w : World C) (a : Action C) : Prop :=
  a = .dispatchStarts → w.commands = .startsLoaded true →
    (onVmCmdStart w.hkd w.entry).2 = true

/-- At the dispatch of a start that was consumed the table has no entry of the machine. -/
def NoEntryAtDispatch (w : World C) (a : Action C) : Prop :=
  a = .dispatchStarts → w.commands = .startsLoaded true → w.entry = none

/-- A machine in state starting is not given another host by a program whose object still
shows it stopped. -/
def HostStays (w : World C) (a : Action C) : Prop :=
  ∀ c freeHost, a = .client c (.apiStart freeHost) →
    canSendVmCmd (w.objects c) .start = true → w.row.vmState ≠ .starting

theorem startReceived_iff (w : World C) (a : Action C) :
    StartReceived w a ↔ NoEntryAtDispatch w a := by
  refine forall_congr' fun _ => forall_congr' fun _ => ?_
  cases w.entry with
  | none =>
    by_cases hrun : w.hkd = .running <;> simp [onVmCmdStart, hrun]
  | some handler => simp [onVmCmdStart]

end Properties

section Invariant

variable {C : Type*} [DecidableEq C] {node : HostId}

/-- The programs neither start a machine in the database nor move a starting one. -/
theorem client_starting {w : World C} {c : C} {op : ClientOp}
    (hstays : HostStays w (.client c op))
    (hstate : (w.client c op).row.vmState = .starting) :
    w.row.vmState = .starting ∧ (w.client c op).row.hostId = w.row.hostId := by
  have hsame : w.row.vmState = .starting :=
    (applyOp_vmState (w.objects c) w.row op).symm.trans hstate
  refine ⟨hsame, ?_⟩
  show (applyOp (w.objects c) w.row op).row.hostId = w.row.hostId
  by_cases hapi : ∃ freeHost, op = .apiStart freeHost
  · obtain ⟨freeHost, rfl⟩ := hapi
    have hcan : ¬ canSendVmCmd (w.objects c) .start = true :=
      fun hcan => hstays c freeHost rfl hcan hsame
    simp only [applyOp, apiStart_of_cannot _ _ freeHost hcan]
  · by_cases hl7r : op = .l7rStart
    · subst hl7r
      exact l7rStart_hostId (w.objects c) w.row
    · have hother := (applyOp_of_other (w.objects c) w.row op
        (fun h heq => hapi ⟨h, heq⟩) hl7r).1
      refine hother.resolve_right ?_
      rw [hsame]
      decide

theorem noOrphan_step {w w' : World C} {a : Action C} (h : NoOrphan node w)
    (hentry : NoEntryAtDispatch w a) (hstays : HostStays w a) (hstep : Step node w a w') :
    NoOrphan node w' := by
  intro hkd hstate hhost
  cases hstep with
  | client =>
    obtain ⟨hold, hsame⟩ := client_starting hstays hstate
    exact h hkd hold (hsame.symm.trans hhost)
  | commandTimer hc =>
    have hold := h hkd hstate hhost
    rw [hc] at hold
    exact Or.inr (hold.resolve_left (by simp))
  | execStops hc =>
    obtain ⟨hsame, hkept⟩ := loadStopCmds_run node w.row
    have hserved := h hkd (hsame.symm.trans hstate) (hkept.symm.trans hhost)
    rw [hc] at hserved
    exact Or.inr (hserved.resolve_left (by simp))
  | dispatchStops hc =>
    have hold := h hkd hstate hhost
    rw [hc] at hold
    exact Or.inr (hold.resolve_left (by simp))
  | @execStarts now hc =>
    cases hsel : loadStartCmds now node w.row with
    | some row' =>
      left
      simp [World.execStarts, World.setCommands, hsel]
    | none =>
      have hrow : (w.execStarts now node).row = w.row := by
        simp [World.execStarts, World.exec, World.setCommands, Statement.run, hsel]
      rw [hrow] at hstate hhost
      have hserved := h hkd hstate hhost
      rw [hc] at hserved
      exact Or.inr (hserved.resolve_left (by simp))
  | @dispatchStarts found hc =>
    cases found with
    | false =>
      have hserved := h hkd hstate hhost
      rw [hc] at hserved
      exact Or.inr (hserved.resolve_left (by simp))
    | true =>
      have hnone := hentry rfl hc
      right
      simp only [World.dispatchStarts, World.setCommands, World.setEntry, hnone, if_true,
        onVmCmdStart]
      by_cases hrun : w.hkd = .running
      · simp [hrun]
      · simp [hrun]
  | commandQueryFails hc =>
    have hold := h hkd hstate hhost
    refine Or.inr (hold.resolve_left ?_)
    rcases hc with hc | hc <;> rw [hc] <;> simp
  | saveState he hs =>
    simp only [World.exec, Statement.run, saveState] at hstate hhost
    split at hstate
    · exact absurd hstate hs
    · next hsel =>
      rw [if_neg hsel] at hhost
      exact h hkd hstate hhost
  | release he => exact Or.inr (Or.inr rfl)
  | execClear he =>
    simp only [World.exec, World.setEntry, Statement.run, clearRuntimeRow] at hstate hhost
    split at hstate
    · cases hstate
    · next hsel =>
      rw [if_neg hsel] at hhost
      exact absurd hhost hsel
  | clearFails he => exact Or.inr (Or.inl rfl)
  | clearDone he =>
    have hold := h hkd hstate hhost
    rw [he] at hold
    exact Or.inl (hold.resolve_right (by simp))
  | vmStopped he =>
    have hold := h hkd hstate hhost
    rw [he] at hold
    exact Or.inl (hold.resolve_right (by simp))
  | hkdStop hr => exact h (by rw [hr]; decide) hstate hhost
  | hkdKill hr => exact absurd rfl hkd
  | abandon he hk => exact absurd hk hkd
  | unassignVms =>
    simp only [World.exec, Statement.run, unassignVms] at hstate hhost
    split at hstate
    · cases hstate
    · next hsel =>
      rw [if_neg hsel] at hhost
      exact h hkd hstate hhost

end Invariant

section Runs

variable {C : Type*} [DecidableEq C] {node : HostId}

/-- In a run, every start that was consumed is received by a handler exactly when the table
has no entry at its dispatch; and then, as long as no starting machine is moved, no row is
left starting on the node without a handler behind it. -/
theorem start_received_iff (past : List (World C × Action C)) (w : World C)
    (run : (dispatches C node).Run past w) :
    (AllSteps StartReceived past ↔ AllSteps NoEntryAtDispatch past) ∧
      (AllSteps NoEntryAtDispatch past → AllSteps HostStays past →
        Always (NoOrphan node) past w) := by
  refine ⟨?_, ?_⟩
  · exact forall_congr' fun e => forall_congr' fun _ => startReceived_iff e.1 e.2
  · intro hentry hstays
    have hok : AllSteps (fun w a => NoEntryAtDispatch w a ∧ HostStays w a) past :=
      fun e he => ⟨hentry e he, hstays e he⟩
    refine run.always_of_allSteps ?_ ?_ hok
    · intro w hinit _ hstate hhost
      exact absurd ⟨hstate, hhost⟩ hinit.2.2.2.2
    · intro s a t hs hok hstep
      exact noOrphan_step hs hok.1 hok.2 hstep

end Runs

section TwoStarts

/-- A stopped machine and a node without handlers. -/
def blankWorld : World Unit where
  row := VmRuntime.fresh
  objects := fun _ => VmRuntime.fresh
  commands := .idle
  entry := none
  hkd := .running

/-- A program places the machine on host 1 with a start, and the round of the command
handler comes to the starts. -/
def placed (w : World Unit) : World Unit :=
  ((((w.client () .load).client () (.apiStart 1)).setCommands .loadingStops).execStops 1).setCommands
    .loadingStarts

/-- The round consumes the start and dispatches it. -/
def served (w : World Unit) (now : Time) : World Unit :=
  ((placed w).execStarts now 1).dispatchStarts true

/-- The steps of a round with a start, from a world with an idle command handler. -/
def roundSteps (w : World Unit) (now : Time) : List (World Unit × Action Unit) :=
  [((placed w).execStarts now 1, .dispatchStarts), (placed w, .execStarts now),
    ((((w.client () .load).client () (.apiStart 1)).setCommands .loadingStops).execStops 1,
      .dispatchStops),
    (((w.client () .load).client () (.apiStart 1)).setCommands .loadingStops, .execStops),
    ((w.client () .load).client () (.apiStart 1), .commandTimer),
    (w.client () .load, .client () (.apiStart 1)), (w, .client () .load)]

theorem round_run (now : Time) {past : List (World Unit × Action Unit)} {w : World Unit}
    (run : (dispatches Unit 1).Run past w) (hidle : w.commands = .idle)
    (hfound : ((placed w).execStarts now 1).commands = .startsLoaded true) :
    (dispatches Unit 1).Run (roundSteps w now ++ past) (served w now) := by
  have h1 := (run.extend (a := Action.client () .load) Step.client).extend
    (a := Action.client () (.apiStart 1)) Step.client
  have h2 := h1.extend (Step.commandTimer hidle)
  have h3 := (h2.extend (Step.execStops rfl)).extend (Step.dispatchStops rfl)
  exact (h3.extend (Step.execStarts rfl)).extend (Step.dispatchStarts hfound)

theorem first_start_served :
    AllSteps StartReceived (roundSteps blankWorld 5) ∧
      Always (NoOrphan 1) (roundSteps blankWorld 5) (served blankWorld 5) := by
  have h0 : (dispatches Unit 1).Run [] blankWorld :=
    System.Run.start ⟨fun _ => rfl, rfl, rfl, rfl, by decide⟩
  have run := round_run 5 h0 rfl (by decide)
  rw [List.append_nil] at run
  have hentry : AllSteps NoEntryAtDispatch (roundSteps blankWorld 5) := by
    intro e he ha _
    rcases List.mem_cons.mp he with rfl | he
    · rfl
    · simp only [List.mem_cons, List.not_mem_nil, or_false] at he
      rcases he with rfl | rfl | rfl | rfl | rfl | rfl <;> cases ha
  have hstays : AllSteps HostStays (roundSteps blankWorld 5) := by
    intro e he c freeHost ha _
    simp only [roundSteps, List.mem_cons, List.not_mem_nil, or_false] at he
    rcases he with rfl | rfl | rfl | rfl | rfl | rfl | rfl <;> cases ha
    decide
  exact ⟨(start_received_iff _ _ run).1.mpr hentry,
    (start_received_iff _ _ run).2 hentry hstays⟩

/-- The handler of the first start releases the row, and before it leaves the table a second
start is consumed: it is dropped, and the row stays starting without a handler. -/
theorem second_start_lost : ∃ past w, (dispatches Unit 1).Run past w ∧ ¬ NoOrphan 1 w := by
  have h0 : (dispatches Unit 1).Run [] blankWorld :=
    System.Run.start ⟨fun _ => rfl, rfl, rfl, rfl, by decide⟩
  have h1 := round_run 5 h0 rfl (by decide)
  have h2 := (h1.extend (Step.release (by decide))).extend (Step.execClear rfl)
  have h3 := round_run 6 h2 rfl (by decide)
  have h4 := (h3.extend (Step.clearDone (by decide))).extend (Step.vmStopped rfl)
  refine ⟨_, _, h4, ?_⟩
  intro h
  exact absurd (h (by decide) (by decide) (by decide)) (by decide)

end TwoStarts

end Qvd.StartDispatch
