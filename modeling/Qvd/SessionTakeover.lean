import Mathlib.Logic.Function.Basic
import Qvd.Runs
import Qvd.VmRuntimeRow

/-!
The session columns of one row shared by L7R processes and their cleaners.
Each transaction and each statement is one atomic step; between its steps a process
keeps only what it has in memory. Processes are named by the caller, so that two
processes can have the same host and pid one after the other.
-/
namespace Qvd.SessionTakeover

open Runs VmRuntimeRow

/-- Where an L7R process is between two of its database accesses. -/
inductive Phase
  | unborn
  | idle
  | acquiring
  | refused
  | contending (object : VmRuntime)
  | holding
  | forwarding
  | exited
  | reaped
deriving DecidableEq, Repr

def Phase.live : Phase → Bool
  | .unborn | .exited | .reaped => false
  | _ => true

structure Process where
  host : HostId
  pid : Pid
  phase : Phase
deriving DecidableEq, Repr

structure World (P : Type*) where
  row : VmRuntime
  hosts : HostId → Option HostState
  processes : P → Process

/-- The row's session columns name the process. -/
def Names (row : VmRuntime) (process : Process) : Prop :=
  row.l7rHostId = some process.host ∧ row.l7rPid = some process.pid

instance (row : VmRuntime) (process : Process) : Decidable (Names row process) := by
  unfold Names
  infer_instance

/-- The transaction of _takeover_vm; none where it dies and is rolled back. -/
def takeoverTxn (row : VmRuntime) (now : Time) (pid : Pid) (host : HostId) :
    Option VmRuntime :=
  if row.userState ≠ .disconnected then none
  else some (setConnecting row row now pid host).row

/-- What the transaction of _run_forwarder checks: the abort command and the state. -/
def Connects (row : VmRuntime) : Prop :=
  row.userCmd ≠ some .abort ∧ row.userState = .connecting

instance (row : VmRuntime) : Decidable (Connects row) := by
  unfold Connects
  infer_instance

/-- The transaction of _run_forwarder; none where it dies and is rolled back. -/
def forwarderTxn (row : VmRuntime) (now : Time) : Option VmRuntime :=
  if Connects row then some (setUserState row row .connected now).row else none

inductive Action (P : Type*)
  | spawn (p : P) (host : HostId) (pid : Pid)
  | request (p : P)
  | takeover (p : P) (now : Time)
  | reload (p : P)
  | abort (p : P)
  | fail (p : P)
  | runForwarder (p : P) (now : Time)
  | exit (p : P)
  | cleanRow (p : P) (now : Time)
  | loseAgent (p : P)
  | markLost (host : HostId)
  | saveHostState (host : HostId) (state : HostState)
  | unassignL7rs (now : Time)
  | cleanupZombieL7rs (host : HostId)

section Steps

variable {P : Type*} [DecidableEq P]

namespace World

def setPhase (w : World P) (p : P) (phase : Phase) : World P :=
  { w with processes := Function.update w.processes p { w.processes p with phase := phase } }

def setRow (w : World P) (row : VmRuntime) : World P :=
  { w with row := row }

def setHost (w : World P) (host : HostId) (state : HostState) : World P :=
  { w with hosts := Function.update w.hosts host (some state) }

def spawn (w : World P) (p : P) (host : HostId) (pid : Pid) : World P :=
  let process : Process := { host := host, pid := pid, phase := .idle }
  { w with processes := Function.update w.processes p process }

def takeover (w : World P) (p : P) (now : Time) : World P :=
  match takeoverTxn w.row now (w.processes p).pid (w.processes p).host with
  | some row => (w.setRow row).setPhase p .holding
  | none => w.setPhase p .refused

/-- The abort is sent through the loaded object; its death ends the request. -/
def abort (w : World P) (p : P) (object : VmRuntime) : World P :=
  match sendUserAbort object w.row with
  | .ok u => (w.setRow u.row).setPhase p .acquiring
  | .error _ => w.setPhase p .idle

def runForwarder (w : World P) (p : P) (now : Time) : World P :=
  match forwarderTxn w.row now with
  | some row => (w.setRow row).setPhase p .forwarding
  | none => w.setPhase p .idle

def exec (w : World P) (s : Statement) : World P :=
  w.setRow (s.run w.row)

end World

/-- One atomic step. A live process can give up its request (or end its session) or exit
at any point; its agent cleans the row after the exit, unless the agent's query or the
agent itself is lost. -/
inductive Step : World P → Action P → World P → Prop
  | spawn {w : World P} {p : P} {host : HostId} {pid : Pid}
      (hnew : (w.processes p).phase = .unborn)
      (hfree : ∀ q, (w.processes q).phase.live = true →
        ¬ ((w.processes q).host = host ∧ (w.processes q).pid = pid)) :
      Step w (.spawn p host pid) (w.spawn p host pid)
  | request {w : World P} {p : P} (h : (w.processes p).phase = .idle) :
      Step w (.request p) (w.setPhase p .acquiring)
  | takeover {w : World P} {p : P} {now : Time} (h : (w.processes p).phase = .acquiring) :
      Step w (.takeover p now) (w.takeover p now)
  | reload {w : World P} {p : P} (h : (w.processes p).phase = .refused) :
      Step w (.reload p) (w.setPhase p (.contending w.row))
  | abort {w : World P} {p : P} {object : VmRuntime}
      (h : (w.processes p).phase = .contending object) : Step w (.abort p) (w.abort p object)
  | fail {w : World P} {p : P} (h : (w.processes p).phase.live = true) :
      Step w (.fail p) (w.setPhase p .idle)
  | runForwarder {w : World P} {p : P} {now : Time} (h : (w.processes p).phase = .holding) :
      Step w (.runForwarder p now) (w.runForwarder p now)
  | exit {w : World P} {p : P} (h : (w.processes p).phase.live = true) :
      Step w (.exit p) (w.setPhase p .exited)
  | cleanRow {w : World P} {p : P} {now : Time} (h : (w.processes p).phase = .exited) :
      Step w (.cleanRow p now)
        ((w.exec (cleanRow now (w.processes p).host (w.processes p).pid)).setPhase p .reaped)
  | loseAgent {w : World P} {p : P} (h : (w.processes p).phase = .exited) :
      Step w (.loseAgent p) (w.setPhase p .reaped)
  | markLost {w : World P} {host : HostId}
      (h : w.hosts host = some .running ∨ w.hosts host = some .stopping) :
      Step w (.markLost host) (w.setHost host .lost)
  | saveHostState {w : World P} {host : HostId} {state : HostState} (h : state ≠ .lost) :
      Step w (.saveHostState host state) (w.setHost host state)
  | unassignL7rs {w : World P} {now : Time} :
      Step w (.unassignL7rs now) (w.exec (unassignL7rs now w.hosts))
  | cleanupZombieL7rs {w : World P} {host : HostId} :
      Step w (.cleanupZombieL7rs host) (w.exec (cleanupZombieL7rs host))

/-- Runs from a row without a session, before any process is born. -/
def sessions (P : Type*) [DecidableEq P] : System (World P) (Action P) where
  init w := w.row.userState = .disconnected ∧ ∀ p, (w.processes p).phase = .unborn
  step := Step

end Steps
section History

variable {P : Type*}

/-- The process of the last takeover that succeeded. -/
def lastTaker : List (World P × Action P) → Option P
  | [] => none
  | (w, .takeover p _) :: past =>
    if w.row.userState = .disconnected then some p else lastTaker past
  | _ :: past => lastTaker past

/-- The process has taken the row over in this run. -/
def Took (past : List (World P × Action P)) (p : P) : Prop :=
  ∃ w now, (w, Action.takeover p now) ∈ past ∧ w.row.userState = .disconnected

/-- Between a successful takeover and its exit, while the row names the process. -/
def InSession (past : List (World P × Action P)) (w : World P) (p : P) : Prop :=
  Took past p ∧ (w.processes p).phase.live = true ∧ Names w.row (w.processes p)

/-- A forwarder transaction that moves the row to connected finds its own process in it. -/
def ConnectsOwnRow (w : World P) (a : Action P) : Prop :=
  ∀ p now, a = .runForwarder p now → Connects w.row → Names w.row (w.processes p)

/-- A forwarder transaction that moves the row to connected is run by the process of
the last takeover. -/
def NoTakeoverSince (past : List (World P × Action P)) (w : World P) (a : Action P) : Prop :=
  ∀ p now, a = .runForwarder p now → Connects w.row → lastTaker past = some p

/-- Whether a step is a statement that can clear the session columns, and which. -/
def clearing (w : World P) : Action P → Option Statement
  | .cleanRow p now => some (cleanRow now (w.processes p).host (w.processes p).pid)
  | .unassignL7rs now => some (unassignL7rs now w.hosts)
  | .cleanupZombieL7rs host => some (cleanupZombieL7rs host)
  | _ => none

/-- No cleaner clears the row while the process it names is between its takeover and its
forwarder transaction. -/
def SparesHolder (w : World P) (a : Action P) : Prop :=
  ∀ s p, clearing w a = some s → (w.processes p).phase = .holding →
    Names w.row (w.processes p) → s w.row = none

end History

section Frame

variable {P : Type*}

/-- A row that has not become connecting nor changed its process while connecting. -/
def RowQuiet (row row' : VmRuntime) : Prop :=
  row'.userState = .connecting →
    row.userState = .connecting ∧ row'.l7rHostId = row.l7rHostId ∧ row'.l7rPid = row.l7rPid

/-- What every step but a birth and a successful takeover leaves in place. -/
structure Quiet (w w' : World P) : Prop where
  ids : ∀ p, (w'.processes p).host = (w.processes p).host ∧
    (w'.processes p).pid = (w.processes p).pid
  born : ∀ p, (w.processes p).phase ≠ .unborn → (w'.processes p).phase ≠ .unborn
  live : ∀ p, (w'.processes p).phase.live = true → (w.processes p).phase.live = true
  holding : ∀ p, (w'.processes p).phase = .holding → (w.processes p).phase = .holding
  row : RowQuiet w.row w'.row

theorem rowQuiet_refl (row : VmRuntime) : RowQuiet row row :=
  fun h => ⟨h, rfl, rfl⟩

theorem quiet_refl (w : World P) : Quiet w w :=
  ⟨fun _ => ⟨rfl, rfl⟩, fun _ h => h, fun _ h => h, fun _ h => h, rowQuiet_refl _⟩

theorem quiet_setRow {w : World P} {row : VmRuntime} (h : RowQuiet w.row row) :
    Quiet w (w.setRow row) :=
  ⟨fun _ => ⟨rfl, rfl⟩, fun _ h => h, fun _ h => h, fun _ h => h, h⟩

theorem quiet_setHost (w : World P) (host : HostId) (state : HostState) :
    Quiet w (w.setHost host state) :=
  ⟨fun _ => ⟨rfl, rfl⟩, fun _ h => h, fun _ h => h, fun _ h => h, rowQuiet_refl _⟩

/-- The cleaners leave the row alone or disconnected. -/
theorem clearing_run {w : World P} {a : Action P} {s : Statement} (h : clearing w a = some s) :
    s.run w.row = w.row ∨ (s.run w.row).userState = .disconnected := by
  cases a <;> simp only [clearing, Option.some.injEq, reduceCtorEq] at h <;> subst h
  all_goals
    simp only [Statement.run, cleanRow, unassignL7rs, cleanupZombieL7rs]
    split
    · exact Or.inr rfl
    · exact Or.inl rfl

theorem rowQuiet_clearing {w : World P} {a : Action P} {s : Statement}
    (h : clearing w a = some s) : RowQuiet w.row (s.run w.row) := by
  rcases clearing_run h with hsame | hdis
  · rw [hsame]
    exact rowQuiet_refl _
  · intro hcon
    rw [hdis] at hcon
    cases hcon

end Frame

section Effects

variable {P : Type*} [DecidableEq P]

/-- Moving a process on is quiet unless it makes it live again or lets it hold the row. -/
theorem quiet_setPhase {w w' : World P} {p : P} {phase : Phase} (h : Quiet w w')
    (hborn : phase ≠ .unborn) (hholding : phase ≠ .holding)
    (hlive : phase.live = true → (w.processes p).phase.live = true) :
    Quiet w (w'.setPhase p phase) := by
  refine ⟨?_, ?_, ?_, ?_, h.row⟩
  · intro q
    by_cases hq : q = p
    · subst hq
      simpa [World.setPhase] using h.ids q
    · simpa [World.setPhase, hq] using h.ids q
  · intro q hnew
    by_cases hq : q = p
    · subst hq
      simpa [World.setPhase] using hborn
    · simpa [World.setPhase, hq] using h.born q hnew
  · intro q
    by_cases hq : q = p
    · subst hq
      simpa [World.setPhase] using hlive
    · simpa [World.setPhase, hq] using h.live q
  · intro q
    by_cases hq : q = p
    · subst hq
      simp [World.setPhase, hholding]
    · simpa [World.setPhase, hq] using h.holding q

theorem quiet_abort {w : World P} {p : P} {object : VmRuntime}
    (h : (w.processes p).phase = .contending object) : Quiet w (w.abort p object) := by
  have hlive : (w.processes p).phase.live = true := by rw [h]; rfl
  unfold World.abort
  cases hsend : sendUserAbort object w.row with
  | error e => exact quiet_setPhase (quiet_refl w) (by simp) (by simp) (fun _ => hlive)
  | ok u =>
    have hrow := sendUserCmd_ok hsend
    have hquiet : RowQuiet w.row u.row := by
      intro hcon
      rw [hrow] at hcon ⊢
      exact ⟨hcon, rfl, rfl⟩
    exact quiet_setPhase (quiet_setRow hquiet) (by simp) (by simp) (fun _ => hlive)

theorem quiet_runForwarder {w : World P} {p : P} {now : Time}
    (h : (w.processes p).phase = .holding) : Quiet w (w.runForwarder p now) := by
  have hlive : (w.processes p).phase.live = true := by rw [h]; rfl
  unfold World.runForwarder forwarderTxn
  by_cases hcon : Connects w.row
  · rw [if_pos hcon]
    have hquiet : RowQuiet w.row (setUserState w.row w.row .connected now).row := by
      intro hstate
      simp [setUserState] at hstate
    exact quiet_setPhase (quiet_setRow hquiet) (by simp) (by simp) (fun _ => hlive)
  · rw [if_neg hcon]
    exact quiet_setPhase (quiet_refl w) (by simp) (by simp) (fun _ => hlive)

/-- A takeover transaction succeeds exactly on a disconnected row. -/
theorem takeover_of_disconnected {w : World P} (p : P) (now : Time)
    (h : w.row.userState = .disconnected) :
    w.takeover p now = (w.setRow (setConnecting w.row w.row now (w.processes p).pid
      (w.processes p).host).row).setPhase p .holding := by
  simp [World.takeover, takeoverTxn, h]

theorem takeover_of_connected {w : World P} (p : P) (now : Time)
    (h : w.row.userState ≠ .disconnected) : w.takeover p now = w.setPhase p .refused := by
  simp [World.takeover, takeoverTxn, h]

end Effects

end Qvd.SessionTakeover
