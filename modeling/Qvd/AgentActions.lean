import Mathlib.Logic.Function.Basic
import Qvd.Runs

/-!
Agents of the HKD: a state machine, and the asynchronous actions its methods start. All
of them report through two events of the machine. When a state is left, watchers are
deleted, commands are forgotten unless they were started to outlive the state, and
nothing happens to what is postponed or left to another agent. Each action remembers
in which state entry the work that led to it began.
-/
namespace Qvd.AgentActions

open Runs

/-- What is called when an action has finished: an event, or a method that goes on. -/
inductive Callback (E M : Type*)
  | event (e : E)
  | method (m : M)
deriving DecidableEq, Repr

structure Opts (E M : Type*) where
  onDone : Callback E M
  onError : Callback E M
  ignoreErrors : Bool := false
  runAndForget : Bool := false
  outlivesState : Bool := false
deriving DecidableEq, Repr

/-- Where the agent keeps what it waits for. A lock is waited for with call_after; a
command that could not be forked has its failure postponed. -/
inductive Slot
  | query | rpc | callAfter | heavy
  | cmd (pid : ℕ)
  | postponed (n : ℕ)
  | subAgent (n : ℕ)
deriving DecidableEq, Repr

/-- The state entry some work began in, and whether it was to outlive its state. -/
structure Origin where
  entry : ℕ
  outlives : Bool
deriving DecidableEq, Repr

structure Started (E M : Type*) where
  opts : Opts E M
  origin : Origin
deriving DecidableEq, Repr

/-- One thing a method does. -/
inductive Move (E M : Type*)
  | start (x : Slot) (opts : Opts E M)
  | report (e : E)
  | rest
deriving DecidableEq, Repr

/-- What _run_cmd starts: a command, or its failure when it cannot be forked. -/
def runCmd {E M : Type*} (opts : Opts E M) : Move E M → Prop
  | .start (.cmd _) o | .start (.postponed _) o => o = opts
  | _ => False

/-- A class of agents: its machine, the method each state enters with, and what a method
may do. A method an action calls back goes on with the work of the method that started it. -/
structure AgentClass (P E M : Type*) where
  onDone : E
  onError : E
  next : P → E → P
  methodAt : P → Option M
  does : M → Move E M → Prop
  goesOn : ∀ m x opts m', does m (.start x opts) →
    opts.onDone = .method m' ∨ opts.onError = .method m' → m' = m

structure Agent (P E M : Type*) where
  state : P
  /-- How many states have been entered. -/
  entry : ℕ
  pending : Slot → Option (Started E M)

inductive Label (E M : Type*)
  | event (e : E)
  | work (m : M) (move : Move E M)
  /-- An action finishes; the move is that of the method it calls back, if it does. -/
  | finish (x : Slot) (failed : Bool) (move : Move E M)

/-- An event that an action or a method of the agent has produced. -/
structure Report (E : Type*) where
  event : E
  origin : Origin
deriving DecidableEq, Repr

section Steps

variable {P E M : Type*}

/-- The callback __call_on_done_or_error_callback picks. -/
def Started.callback (s : Started E M) (failed : Bool) : Option (Callback E M) :=
  if s.opts.runAndForget then none
  else if failed && !s.opts.ignoreErrors then some s.opts.onError
  else some s.opts.onDone

def Started.forget (s : Started E M) : Started E M :=
  { s with opts := { s.opts with runAndForget := true } }

/-- What leaving a state does to an action: leave_state, and __run_cmd_on_leave_state for
commands. -/
def leaveState : Slot → Started E M → Option (Started E M)
  | .query, _ | .rpc, _ | .callAfter, _ | .heavy, _ => none
  | .cmd _, s => some (if s.opts.outlivesState then s else s.forget)
  | .postponed _, s | .subAgent _, s => some s

namespace Agent

variable (a : Agent P E M)

/-- A move of work that began where the origin says. -/
def setPending (x : Slot) (o : Option (Started E M)) : Agent P E M :=
  { a with pending := Function.update a.pending x o }

def move (origin : Origin) : Move E M → Agent P E M
  | .start x opts =>
    a.setPending x (some ⟨opts, ⟨origin.entry, origin.outlives || opts.outlivesState⟩⟩)
  | .report _ | .rest => a

def clear (x : Slot) : Agent P E M :=
  a.setPending x none

/-- What the agent has waiting once the callbacks of a step have run. -/
def effect : Label E M → Agent P E M
  | .event _ => a
  | .work _ move => a.move ⟨a.entry, false⟩ move
  | .finish x failed move =>
    match a.pending x with
    | none => a
    | some s =>
      match s.callback failed with
      | some (.method _) => (a.clear x).move s.origin move
      | _ => a.clear x

def moved (origin : Origin) : Move E M → Option (Report E)
  | .report e => some ⟨e, origin⟩
  | .start _ _ | .rest => none

def report : Label E M → Option (Report E)
  | .event _ => none
  | .work _ move => moved ⟨a.entry, false⟩ move
  | .finish x failed move =>
    (a.pending x).bind (fun s => (s.callback failed).bind (fun
      | .event e => some ⟨e, s.origin⟩
      | .method _ => moved s.origin move))

/-- The event a step hands to the machine. -/
def emitted : Label E M → Option E
  | .event e => some e
  | l => (a.report l).map Report.event

def leave (state : P) : Agent P E M where
  state := state
  entry := a.entry + 1
  pending x := (a.pending x).bind (leaveState x)

end Agent

variable (cls : AgentClass P E M)

/-- Where a step leads the machine. -/
def stateAfter (a : Agent P E M) (l : Label E M) : P :=
  ((a.emitted l).map (cls.next a.state)).getD a.state

/-- A process, a postponed call or an agent that is started is a new one; a watcher takes
the place of the one before it. -/
def NewSlot (a : Agent P E M) : Move E M → Prop
  | .start (.cmd pid) _ => a.pending (.cmd pid) = none
  | .start (.postponed n) _ => a.pending (.postponed n) = none
  | .start (.subAgent n) _ => a.pending (.subAgent n) = none
  | _ => True

/-- The two events are not sent from outside. -/
def Enabled (a : Agent P E M) : Label E M → Prop
  | .event e => e ≠ cls.onDone ∧ e ≠ cls.onError
  | .work m move => cls.methodAt a.state = some m ∧ cls.does m move ∧ NewSlot a move
  | .finish x failed move => ∃ s, a.pending x = some s ∧
      ∀ m, s.callback failed = some (.method m) → cls.does m move ∧ NewSlot (a.clear x) move

variable [DecidableEq P]

def perform (a : Agent P E M) (l : Label E M) : Agent P E M :=
  if stateAfter cls a l = a.state then a.effect l
  else (a.effect l).leave (stateAfter cls a l)

/-- The runs of an agent that is made in a state. -/
def agentRuns (new : P) : System (Agent P E M) (Label E M) where
  init a := a.state = new ∧ a.entry = 0 ∧ ∀ x, a.pending x = none
  step a l a' := Enabled cls a l ∧ a' = perform cls a l

end Steps

section Commands

variable {E M : Type*}

instance [DecidableEq E] [DecidableEq M] (opts : Opts E M) :
    (mv : Move E M) → Decidable (runCmd opts mv)
  | .start (.cmd _) o | .start (.postponed _) o => inferInstanceAs (Decidable (o = opts))
  | .start .query _ | .start .rpc _ | .start .callAfter _ | .start .heavy _
  | .start (.subAgent _) _ | .report _ | .rest => inferInstanceAs (Decidable False)

theorem runCmd_start_iff (o opts : Opts E M) (x : Slot) :
    runCmd o (.start x opts) ↔ (∃ n, x = .cmd n ∨ x = .postponed n) ∧ opts = o := by
  cases x <;> simp [runCmd]

end Commands

section Property

variable {P E M : Type*} (cls : AgentClass P E M)

/-- The events that tell the end of an action. -/
def IsCompletion (e : E) : Prop :=
  e = cls.onDone ∨ e = cls.onError

/-- A completion the agent receives tells the end of work begun in its current state, or of
an action that was started to outlive its state. -/
def OwnCompletion (a : Agent P E M) (l : Label E M) (_ : Agent P E M) : Prop :=
  ∀ r, a.report l = some r → IsCompletion cls r.event →
    r.origin.entry = a.entry ∨ r.origin.outlives = true

/-- No exception made for actions that outlive their state. -/
def StrictlyOwn (a : Agent P E M) (l : Label E M) (_ : Agent P E M) : Prop :=
  ∀ r, a.report l = some r → IsCompletion cls r.event → r.origin.entry = a.entry

/-- What leaving a state does not stop. -/
def Slot.uncancelled : Slot → Bool
  | .postponed _ | .subAgent _ => true
  | _ => false

/-- An action that will not tell its end in a later state although nothing stops it. -/
def Started.Harmless (s : Started E M) : Prop :=
  s.opts.runAndForget = true ∨ s.origin.outlives = true

/-- A step that leaves a state leaves no failure postponed and no agent at work. -/
def LeavesNothing (a : Agent P E M) (l : Label E M) : Prop :=
  stateAfter cls a l ≠ a.state →
    ∀ x s, x.uncancelled = true → (a.effect l).pending x = some s → s.Harmless

theorem harmless_of_none {a : Agent P E M}
    (h : ∀ n, a.pending (.postponed n) = none ∧ a.pending (.subAgent n) = none) (x : Slot)
    (s : Started E M) (hx : x.uncancelled = true) (hs : a.pending x = some s) : s.Harmless := by
  cases x with
  | postponed n =>
    rw [(h n).1] at hs
    cases hs
  | subAgent n =>
    rw [(h n).2] at hs
    cases hs
  | query | rpc | callAfter | heavy | cmd pid => cases hx

end Property

section Invariant

variable {P E M : Type*} {cls : AgentClass P E M} {a : Agent P E M}

/-- What is known of a pending action: it is forgotten, or to outlive its state, or belongs
to the work of the current state; only the last two kinds may still report. -/
structure Known (cls : AgentClass P E M) (a : Agent P E M) (x : Slot) (s : Started E M) :
    Prop where
  made : ∃ m opts, cls.does m (.start x opts) ∧
    (s.opts = opts ∨ s.opts = { opts with runAndForget := true })
  declared : s.opts.outlivesState = true → s.origin.outlives = true
  current : s.Harmless ∨ s.origin.entry = a.entry
  work : s.origin.entry = a.entry → s.Harmless ∨
    ∃ m, cls.methodAt a.state = some m ∧ cls.does m (.start x s.opts)

/-- Every pending action is known. -/
def Inv (cls : AgentClass P E M) (a : Agent P E M) : Prop :=
  ∀ x s, a.pending x = some s → Known cls a x s

theorem callback_of_runAndForget {s : Started E M} (h : s.opts.runAndForget = true)
    (failed : Bool) : s.callback failed = none := by
  rw [Started.callback, if_pos h]

/-- An action that calls something back names it. -/
theorem named_of_callback {s : Started E M} {failed : Bool} {c : Callback E M}
    (h : s.callback failed = some c) : s.opts.onDone = c ∨ s.opts.onError = c := by
  unfold Started.callback at h
  split at h
  · cases h
  · split at h
    · exact Or.inr (Option.some.inj h)
    · exact Or.inl (Option.some.inj h)

theorem clear_self (x : Slot) : (a.clear x).pending x = none :=
  Function.update_self ..

theorem clear_pending {x y : Slot} {s : Started E M} (h : (a.clear x).pending y = some s) :
    a.pending y = some s := by
  simp only [Agent.clear, Agent.setPending] at h
  by_cases hyx : y = x
  · rw [hyx, Function.update_self] at h
    cases h
  · rwa [Function.update_of_ne hyx] at h

/-- What a move leaves pending was pending before, or is what it starts. -/
theorem move_pending {origin : Origin} {mv : Move E M} {y : Slot} {s : Started E M}
    (h : (a.move origin mv).pending y = some s) : a.pending y = some s ∨
      ∃ opts, mv = .start y opts ∧
        s = ⟨opts, ⟨origin.entry, origin.outlives || opts.outlivesState⟩⟩ := by
  cases mv with
  | start x opts =>
    simp only [Agent.move, Agent.setPending] at h
    by_cases hyx : y = x
    · rw [hyx, Function.update_self] at h
      exact Or.inr ⟨opts, by rw [hyx], (Option.some.inj h).symm⟩
    · rw [Function.update_of_ne hyx] at h
      exact Or.inl h
  | report e => exact Or.inl h
  | rest => exact Or.inl h

/-- A method makes the move, and its origin is one an action of the current state has. -/
def Proper (cls : AgentClass P E M) (a : Agent P E M) (origin : Origin) (mv : Move E M) : Prop :=
  ∃ m, cls.does m mv ∧
    (origin.outlives = true ∨ (origin.entry = a.entry ∧ cls.methodAt a.state = some m))

theorem known_of_started {origin : Origin} {x : Slot} {opts : Opts E M}
    (h : Proper cls a origin (.start x opts)) :
    Known cls a x ⟨opts, ⟨origin.entry, origin.outlives || opts.outlivesState⟩⟩ := by
  obtain ⟨m, hdoes, horigin⟩ := h
  refine ⟨⟨m, opts, hdoes, Or.inl rfl⟩, ?_, ?_, ?_⟩
  · intro hout
    rw [show opts.outlivesState = true from hout, Bool.or_true]
  · rcases horigin with hout | ⟨hentry, -⟩
    · exact Or.inl (Or.inr (by simp [hout]))
    · exact Or.inr hentry
  · intro _
    rcases horigin with hout | ⟨-, hm⟩
    · exact Or.inl (Or.inr (by simp [hout]))
    · exact Or.inr ⟨m, hm, hdoes⟩

/-- An action that goes on in a method does so properly. -/
theorem proper_of_callback {x : Slot} {s : Started E M} (hs : Known cls a x s) {failed : Bool}
    {m : M} (hcall : s.callback failed = some (.method m)) {mv : Move E M}
    (hdoes : cls.does m mv) : Proper cls a s.origin mv := by
  have hharm : s.Harmless → s.origin.outlives = true := by
    rintro (hforget | hout)
    · rw [callback_of_runAndForget hforget] at hcall
      cases hcall
    · exact hout
  refine ⟨m, hdoes, ?_⟩
  rcases hs.current with hharmless | hentry
  · exact Or.inl (hharm hharmless)
  · rcases hs.work hentry with hharmless | ⟨m', hm', hstart⟩
    · exact Or.inl (hharm hharmless)
    · obtain rfl := cls.goesOn m' x s.opts m hstart (named_of_callback hcall)
      exact Or.inr ⟨hentry, hm'⟩

/-- A step keeps its pending actions known as long as the state is not left. -/
theorem Inv.effect (hI : Inv cls a) {l : Label E M} (hen : Enabled cls a l) {y : Slot}
    {s : Started E M} (h : (a.effect l).pending y = some s) : Known cls a y s := by
  cases l with
  | event e => exact hI y s h
  | work m mv =>
    rcases move_pending h with hold | ⟨opts, rfl, rfl⟩
    · exact hI y s hold
    · exact known_of_started ⟨m, hen.2.1, Or.inr ⟨rfl, hen.1⟩⟩
  | finish x failed mv =>
    obtain ⟨s', hs', hcont⟩ := hen
    simp only [Agent.effect, hs'] at h
    split at h
    · next m hcall =>
      rcases move_pending h with hold | ⟨opts, rfl, rfl⟩
      · exact hI y s (clear_pending hold)
      · exact known_of_started (proper_of_callback (hI x s' hs') hcall (hcont m hcall).1)
    · exact hI y s (clear_pending h)

theorem known_congr {b : Agent P E M} (hstate : b.state = a.state) (hentry : b.entry = a.entry)
    {x : Slot} {s : Started E M} (h : Known cls a x s) : Known cls b x s := by
  obtain ⟨hm, hd, hc, hw⟩ := h
  refine ⟨hm, hd, ?_, ?_⟩
  · rw [hentry]
    exact hc
  · rw [hentry, hstate]
    exact hw

theorem move_state (origin : Origin) (mv : Move E M) :
    (a.move origin mv).state = a.state ∧ (a.move origin mv).entry = a.entry := by
  cases mv <;> exact ⟨rfl, rfl⟩

theorem effect_state (l : Label E M) :
    (a.effect l).state = a.state ∧ (a.effect l).entry = a.entry := by
  cases l with
  | event e => exact ⟨rfl, rfl⟩
  | work m mv => exact move_state _ mv
  | finish x failed mv =>
    simp only [Agent.effect]
    split
    · exact ⟨rfl, rfl⟩
    · split
      · exact move_state _ mv
      · exact ⟨rfl, rfl⟩

/-- What was known of the action itself and that it is harmless now is enough. -/
theorem Known.of_harmless {b : Agent P E M} {x : Slot} {s : Started E M} (hs : Known cls a x s)
    (h : s.Harmless) : Known cls b x s :=
  ⟨hs.made, hs.declared, Or.inl h, fun _ => Or.inl h⟩

theorem Known.forget {b : Agent P E M} {x : Slot} {s : Started E M} (hs : Known cls a x s) :
    Known cls b x s.forget := by
  have hharmless : s.forget.Harmless := Or.inl rfl
  refine ⟨?_, hs.declared, Or.inl hharmless, fun _ => Or.inl hharmless⟩
  obtain ⟨m, opts, hdoes, hopts⟩ := hs.made
  refine ⟨m, opts, hdoes, Or.inr ?_⟩
  rcases hopts with hopts | hopts <;> simp [Started.forget, hopts]

/-- Whatever is still pending after a state has been left is harmless, for each kind of
action in its own way. -/
theorem known_leaveState {b : Agent P E M} {x : Slot} {s t : Started E M}
    (hs : Known cls a x s) (hleft : leaveState x s = some t)
    (hharmless : x.uncancelled = true → s.Harmless) : Known cls b x t := by
  cases x with
  | query | rpc | callAfter | heavy => cases hleft
  | cmd pid =>
    simp only [leaveState, Option.some.injEq] at hleft
    by_cases hout : s.opts.outlivesState = true
    · rw [if_pos hout] at hleft
      exact hleft ▸ hs.of_harmless (Or.inr (hs.declared hout))
    · rw [if_neg hout] at hleft
      exact hleft ▸ hs.forget
  | postponed n =>
    obtain rfl := Option.some.inj hleft
    exact hs.of_harmless (hharmless rfl)
  | subAgent n =>
    obtain rfl := Option.some.inj hleft
    exact hs.of_harmless (hharmless rfl)

theorem moved_origin {origin : Origin} {mv : Move E M} {r : Report E}
    (h : Agent.moved origin mv = some r) : r.origin = origin := by
  cases mv with
  | report e => rw [← Option.some.inj h]
  | start x opts => cases h
  | rest => cases h

/-- A report comes from the method of the current state or from a pending action that
calls something back. -/
theorem report_cases {l : Label E M} {r : Report E} (h : a.report l = some r) :
    r.origin = ⟨a.entry, false⟩ ∨
      ∃ x s failed, a.pending x = some s ∧ r.origin = s.origin ∧
        ∃ c, s.callback failed = some c ∧ ∀ e, c = .event e → r.event = e := by
  cases l with
  | event e => cases h
  | work m mv => exact Or.inl (moved_origin h)
  | finish x failed mv =>
    obtain ⟨s, hs, hcalls⟩ := Option.bind_eq_some_iff.mp h
    obtain ⟨c, hc, hr⟩ := Option.bind_eq_some_iff.mp hcalls
    refine Or.inr ⟨x, s, failed, hs, ?_, c, hc, ?_⟩
    · cases c with
      | event e => rw [← Option.some.inj hr]
      | method m => exact moved_origin hr
    · rintro e rfl
      rw [← Option.some.inj hr]

/-- With every pending action known, a completion that arrives belongs to the current
state. -/
theorem Inv.ownCompletion (hI : Inv cls a) (l : Label E M) (a' : Agent P E M) :
    OwnCompletion cls a l a' := by
  intro r hr _
  rcases report_cases hr with hown | ⟨x, s, failed, hs, horigin, c, hc, -⟩
  · rw [hown]
    exact Or.inl rfl
  · rw [horigin]
    rcases (hI x s hs).current with (hforget | hout) | hentry
    · rw [callback_of_runAndForget hforget] at hc
      cases hc
    · exact Or.inr hout
    · exact Or.inl hentry

variable [DecidableEq P]

theorem Inv.perform (hI : Inv cls a) {l : Label E M} (hen : Enabled cls a l)
    (hleaves : LeavesNothing cls a l) : Inv cls (perform cls a l) := by
  unfold AgentActions.perform
  split
  · intro x s h
    obtain ⟨hstate, hentry⟩ := effect_state (a := a) l
    exact known_congr hstate hentry (hI.effect hen h)
  · next hmoves =>
    intro x t h
    obtain ⟨s, hs, hleft⟩ := Option.bind_eq_some_iff.mp h
    exact known_leaveState (hI.effect hen hs) hleft
      (fun hx => hleaves hmoves x s hx hs)

theorem inv_always {new : P} {past : List (Agent P E M × Label E M)}
    (run : (agentRuns cls new).Run past a) (hleaves : AllSteps (LeavesNothing cls) past) :
    Always (Inv cls) past a := by
  refine run.always_of_allSteps ?_ ?_ hleaves
  · rintro b ⟨-, -, hnone⟩ x s hs
    rw [hnone x] at hs
    cases hs
  · rintro b l b' hI hl ⟨hen, rfl⟩
    exact hI.perform hen hl

/-- In a run that leaves no failure postponed and no agent at work when it leaves a state,
all completions belong to the current state or to actions that outlive theirs. -/
theorem completions_own {new : P} {past : List (Agent P E M × Label E M)}
    (run : (agentRuns cls new).Run past a) (hleaves : AllSteps (LeavesNothing cls) past) :
    EachTransition (OwnCompletion cls) past a :=
  run.eachTransition_of_always (fun _ l a' hI _ => hI.ownCompletion l a')
    (inv_always run hleaves)

end Invariant

section Replay

variable {P E M : Type*} [DecidableEq P] [DecidableEq E] (cls : AgentClass P E M)
  [∀ m mv, Decidable (cls.does m mv)]

instance (a : Agent P E M) : (mv : Move E M) → Decidable (NewSlot a mv)
  | .start (.cmd _) _ | .start (.postponed _) _ | .start (.subAgent _) _ =>
    inferInstanceAs (Decidable (_ = none))
  | .start .query _ | .start .rpc _ | .start .callAfter _ | .start .heavy _ | .report _
  | .rest => inferInstanceAs (Decidable True)

instance decidableGoesOn (a b : Agent P E M) (x : Slot) (failed : Bool) (mv : Move E M) :
    Decidable (∃ s, a.pending x = some s ∧
      ∀ m, s.callback failed = some (.method m) → cls.does m mv ∧ NewSlot b mv) :=
  match hs : a.pending x with
  | none => isFalse (by simp)
  | some s =>
    match hc : s.callback failed with
    | some (.method m) =>
      decidable_of_iff (cls.does m mv ∧ NewSlot b mv) (by simp [hc])
    | some (.event e) => isTrue ⟨s, rfl, by simp [hc]⟩
    | none => isTrue ⟨s, rfl, by simp [hc]⟩

instance [DecidableEq M] (a : Agent P E M) : (l : Label E M) → Decidable (Enabled cls a l)
  | .event _ => inferInstanceAs (Decidable (_ ∧ _))
  | .work _ _ => inferInstanceAs (Decidable (_ ∧ _ ∧ _))
  | .finish x failed mv => decidableGoesOn cls a (a.clear x) x failed mv

/-- The history and the state after some steps. -/
def replay (past : List (Agent P E M × Label E M)) (a : Agent P E M) :
    List (Label E M) → List (Agent P E M × Label E M) × Agent P E M
  | [] => (past, a)
  | l :: labels => replay ((a, l) :: past) (perform cls a l) labels

def enabledAlong [DecidableEq M] (a : Agent P E M) : List (Label E M) → Bool
  | [] => true
  | l :: labels => decide (Enabled cls a l) && enabledAlong (perform cls a l) labels

theorem replay_run [DecidableEq M] {new : P} (labels : List (Label E M))
    {past : List (Agent P E M × Label E M)} {a : Agent P E M}
    (run : (agentRuns cls new).Run past a) (h : enabledAlong cls a labels = true) :
    (agentRuns cls new).Run (replay cls past a labels).1 (replay cls past a labels).2 := by
  induction labels generalizing past a with
  | nil => exact run
  | cons l labels ih =>
    obtain ⟨hl, hrest⟩ := Bool.and_eq_true_iff.mp h
    exact ih (run.extend ⟨of_decide_eq_true hl, rfl⟩) hrest

end Replay

end Qvd.AgentActions
