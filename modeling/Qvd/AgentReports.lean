import Qvd.AgentActions
import Qvd.LxcCleanUp

/-!
Whose completions an agent hears: agents of any class, the LXC machine handler with its
file system agent, and the DHCP handler, whose command outlives the state it is started in.
-/
namespace Qvd.AgentReports

open Runs StateTable LxcHandlerTable LxcCleanUp AgentActions

section Lxc

def plain : Opts Event Method where
  onDone := .event .onDone
  onError := .event .onError

/-- What the methods of the handler may do. The monitor of the agent in the machine tells
no completion, and the firewall commands are waited for. -/
def lxcDoes (m : Method) (mv : Move Event Method) : Prop :=
  match m with
  | .loadRow | .searchDi | .saveRuntimeRow | .incrRunAttempts | .saveState | .incrRunOk
  | .clearRuntimeRow => mv = .start .query plain
  | .checkHypervisor | .allocateHomeFs | .createLxc | .setFwRules | .removeFwRules
  | .checkDirtyFlag | .checkLxc => mv = .report .onDone ∨ mv = .report .onError
  | .calculateAttrs | .addToDhcpd | .rmFromDhcpd | .requestVhciHub | .returnVhciHub
  | .releaseCpuset | .destroyLxc | .heavyUp => mv = .report .onDone
  | .killLxc => mv = .report .onDone ∨ mv = .report .onError ∨
      mv = .start .callAfter { plain with onDone := .method .killLxc }
  | .unlinkIface => runCmd { plain with ignoreErrors := true } mv
  | .unmountFilesystems => mv = .report .onDone ∨ mv = .report .onError ∨
      runCmd { plain with ignoreErrors := true, onDone := .method .unmountFilesystems } mv
  | .startOsFs => mv = .start (.subAgent 0) plain
  | .heavyDown => mv = .report .onDone ∨ mv = .start .heavy plain
  | .runPrestartHook | .runPoststartHook | .runPoststopHook =>
      mv = .report .onDone ∨ runCmd plain mv
  | .startLxc => mv = .report .onDone ∨
      runCmd { plain with ignoreErrors := true, outlivesState := true,
                          onDone := .event .onLxcDone } mv
  | .stopLxc => mv = .report .onDone ∨ runCmd { plain with runAndForget := true } mv
  | .shutdown => mv = .start .rpc plain
  | .expire => mv = .start .rpc { plain with ignoreErrors := true }
  | .setStateTimer => mv = .start .callAfter { plain with onDone := .event .onStateTimeout }
  | .startVmaMonitor | .onStopped => mv = .rest

instance (m : Method) (mv : Move Event Method) : Decidable (lxcDoes m mv) := by
  cases m <;> unfold lxcDoes <;> infer_instance

theorem lxcDoes_goesOn (m : Method) (x : Slot) (opts : Opts Event Method) (m' : Method)
    (hdoes : lxcDoes m (.start x opts))
    (hcall : opts.onDone = .method m' ∨ opts.onError = .method m') : m' = m := by
  cases m <;> simp [lxcDoes, runCmd_start_iff] at hdoes <;> simp_all [plain]

/-- Only _start_os_fs makes an agent, and it makes one that reports to the machine. -/
theorem subAgent_started {m : Method} {n : ℕ} {opts : Opts Event Method}
    (hdoes : lxcDoes m (.start (.subAgent n) opts)) : m = .startOsFs ∧ n = 0 ∧ opts = plain := by
  cases m <;> simp_all [lxcDoes, runCmd_start_iff]

/-- Only lxc-start outlives its state, and its end is told as _on_lxc_done. -/
theorem outliving_started {m : Method} {x : Slot} {opts : Opts Event Method}
    (hdoes : lxcDoes m (.start x opts)) (hout : opts.outlivesState = true) :
    opts.ignoreErrors = true ∧ opts.onDone = .event .onLxcDone := by
  cases m <;> simp [lxcDoes, runCmd_start_iff] at hdoes <;> simp_all [plain]

def lxcClass (next : Path → Event → Path) : AgentClass Path Event Method where
  onDone := .onDone
  onError := .onError
  next := next
  methodAt := lxc.methodAt
  does := lxcDoes
  goesOn := lxcDoes_goesOn

instance (next : Path → Event → Path) (m : Method) (mv : Move Event Method) :
    Decidable ((lxcClass next).does m mv) :=
  inferInstanceAs (Decidable (lxcDoes m mv))

/-- While the file system agent is at work, nothing from outside takes the handler out of
the state that waits for it: no kill, no stop of the node, no dirty mark. -/
def OsFsAwaited (a : Agent Path Event Method) (l : Label Event Method) : Prop :=
  a.state = [.starting, .osFs] → a.pending (.subAgent 0) ≠ none →
    ∀ e, l = .event e → e ≠ .onHkdKill ∧ e ≠ .onHkdStop ∧ e ≠ .onDirty

/-- No state is left before the failure of a command that could not be forked is told. -/
def FailuresTold (next : Path → Event → Path) (a : Agent Path Event Method)
    (l : Label Event Method) : Prop :=
  stateAfter (lxcClass next) a l ≠ a.state →
    ∀ n s, (a.effect l).pending (.postponed n) = some s → s.Harmless

def Undisturbed (next : Path → Event → Path) (a : Agent Path Event Method)
    (l : Label Event Method) : Prop :=
  OsFsAwaited a l ∧ FailuresTold next a l

end Lxc

section LxcRuns

variable {next : Path → Event → Path} {a : Agent Path Event Method} {l : Label Event Method}

/-- The handler is in a state of its table, its file system agent is at work only in the
state that waits for it, and what outlives its state was told to. -/
structure LxcInv (next : Path → Event → Path) (a : Agent Path Event Method) : Prop where
  known : Inv (lxcClass next) a
  leaf : a.state ∈ lxc.leaves
  osFs : ∀ n s, a.pending (.subAgent n) = some s → n = 0 ∧ a.state = [.starting, .osFs]
  outlives : ∀ x s, a.pending x = some s → s.origin.outlives = true →
    s.opts.outlivesState = true

/-- A pending action was started with options the table of methods knows. -/
theorem LxcInv.opts (hI : LxcInv next a) {x : Slot} {s : Started Event Method}
    (hs : a.pending x = some s) : ∃ m opts, lxcDoes m (.start x opts) ∧
      s.opts.onDone = opts.onDone ∧ s.opts.onError = opts.onError ∧
      s.opts.ignoreErrors = opts.ignoreErrors ∧ s.opts.outlivesState = opts.outlivesState := by
  obtain ⟨m, opts, hdoes, hopts⟩ := (hI.known x s hs).made
  refine ⟨m, opts, hdoes, ?_⟩
  rcases hopts with hopts | hopts <;> simp [hopts]

/-- What an action that outlives its state calls back. -/
theorem LxcInv.callback_outliving (hI : LxcInv next a) {x : Slot} {s : Started Event Method}
    (hs : a.pending x = some s) (hout : s.origin.outlives = true) {failed : Bool}
    {c : Callback Event Method} (hc : s.callback failed = some c) : c = .event .onLxcDone := by
  obtain ⟨m, opts, hdoes, hdone, -, hign, hlives⟩ := hI.opts hs
  obtain ⟨hignore, hcall⟩ :=
    outliving_started hdoes (hlives.symm.trans (hI.outlives x s hs hout))
  unfold Started.callback at hc
  rw [hign, hignore, hdone, hcall] at hc
  split at hc
  · cases hc
  · simpa using hc.symm

/-- The method of the state that waits for the file system agent, and no other state's. -/
theorem startOsFs_state {path : Path} (hleaf : path ∈ lxc.leaves) :
    lxc.methodAt path = some .startOsFs ↔ path = [.starting, .osFs] := by
  constructor
  · exact (method_states path hleaf).2.1
  · rintro rfl
    decide

/-- The events that take the handler out of the state that waits for the agent. -/
theorem next_osFs : ∀ e ∈ Event.all, lxc.next 3 [.starting, .osFs] e ≠ [.starting, .osFs] →
    e ∈ [Event.onDone, .onError, .onHkdKill, .onHkdStop, .onDirty] := by
  decide

/-- What calls a method back was not started to outlive its state, and the method is not
the one that makes the file system agent. -/
theorem LxcInv.callback_method (hI : LxcInv next a) {x : Slot} {s : Started Event Method}
    (hs : a.pending x = some s) {failed : Bool} {m : Method}
    (hc : s.callback failed = some (.method m)) :
    s.origin.outlives = false ∧ m ≠ .startOsFs := by
  constructor
  · cases hout : s.origin.outlives with
    | false => rfl
    | true => cases hI.callback_outliving hs hout hc
  · rintro rfl
    obtain ⟨m, opts, hdoes, hdone, herror, -⟩ := hI.opts hs
    have hnamed := named_of_callback hc
    rw [hdone, herror] at hnamed
    obtain rfl := lxcDoes_goesOn m x opts .startOsFs hdoes hnamed
    obtain ⟨-, rfl⟩ := Move.start.inj hdoes
    rcases hnamed with h | h <;> cases h

/-- A pending action after a step, before the state is left: an earlier one, or one that the
method of the state or a method called back has started. -/
theorem effect_pending (hI : LxcInv next a) (hen : Enabled (lxcClass next) a l) {y : Slot}
    {s : Started Event Method} (hs : (a.effect l).pending y = some s) :
    a.pending y = some s ∨ ∃ m, lxcDoes m (.start y s.opts) ∧
      s.origin.outlives = s.opts.outlivesState ∧
      (lxc.methodAt a.state = some m ∨ m ≠ .startOsFs) := by
  cases l with
  | event e => exact Or.inl hs
  | work m mv =>
    rcases move_pending hs with hold | ⟨opts, rfl, rfl⟩
    · exact Or.inl hold
    · exact Or.inr ⟨m, hen.2.1, Bool.false_or _, Or.inl hen.1⟩
  | finish x failed mv =>
    obtain ⟨s', hs', hcont⟩ := hen
    simp only [Agent.effect, hs'] at hs
    split at hs
    · next m hcall =>
      rcases move_pending hs with hold | ⟨opts, rfl, rfl⟩
      · exact Or.inl (clear_pending hold)
      · obtain ⟨hlives, hm⟩ := hI.callback_method hs' hcall
        exact Or.inr ⟨m, (hcont m hcall).1, by rw [hlives, Bool.false_or], Or.inr hm⟩
    · exact Or.inl (clear_pending hs)

theorem osFs_effect (hI : LxcInv next a) (hen : Enabled (lxcClass next) a l) {n : ℕ}
    {s : Started Event Method} (hs : (a.effect l).pending (.subAgent n) = some s) :
    n = 0 ∧ a.state = [.starting, .osFs] := by
  rcases effect_pending hI hen hs with hold | ⟨m, hdoes, -, hm⟩
  · exact hI.osFs n s hold
  · obtain ⟨rfl, rfl, -⟩ := subAgent_started hdoes
    exact ⟨rfl, (startOsFs_state hI.leaf).mp (hm.resolve_right (fun h => h rfl))⟩

theorem outlives_effect (hI : LxcInv next a) (hen : Enabled (lxcClass next) a l) {x : Slot}
    {s : Started Event Method} (hs : (a.effect l).pending x = some s)
    (hout : s.origin.outlives = true) : s.opts.outlivesState = true := by
  rcases effect_pending hI hen hs with hold | ⟨m, -, heq, -⟩
  · exact hI.outlives x s hold hout
  · exact heq ▸ hout

/-- A step that leaves a state has handed an event to the machine. -/
theorem emitted_of_leaves (h : stateAfter (lxcClass next) a l ≠ a.state) :
    ∃ e, a.emitted l = some e ∧ next a.state e ≠ a.state := by
  unfold stateAfter at h
  cases he : a.emitted l with
  | none =>
    rw [he] at h
    exact absurd rfl h
  | some e =>
    rw [he] at h
    exact ⟨e, rfl, h⟩

/-- In the state that waits for the file system agent nothing else reports: what is done
there is to start the agent, and what is left from before is forgotten or is lxc-start. -/
theorem finish_osFs (hI : LxcInv next a) (hstate : a.state = [.starting, .osFs]) {x : Slot}
    {s : Started Event Method} (hs : a.pending x = some s) {failed : Bool}
    {c : Callback Event Method} (hc : s.callback failed = some c) :
    c = .event .onLxcDone ∨ (x = .subAgent 0 ∧ (c = .event .onDone ∨ c = .event .onError)) := by
  rcases (hI.known x s hs).current with (hforget | hout) | hentry
  · rw [callback_of_runAndForget hforget] at hc
    cases hc
  · exact Or.inl (hI.callback_outliving hs hout hc)
  · rcases (hI.known x s hs).work hentry with (hforget | hout) | ⟨m, hm, hdoes⟩
    · rw [callback_of_runAndForget hforget] at hc
      cases hc
    · exact Or.inl (hI.callback_outliving hs hout hc)
    · have hstart : lxc.methodAt a.state = some .startOsFs := (startOsFs_state hI.leaf).mpr hstate
      obtain rfl : m = .startOsFs := Option.some.inj (Eq.trans (Eq.symm hm) hstart)
      obtain ⟨rfl, hopts⟩ := Move.start.inj hdoes
      refine Or.inr ⟨rfl, ?_⟩
      have hnamed := named_of_callback hc
      rw [hopts] at hnamed
      exact hnamed.imp Eq.symm Eq.symm

/-- No step takes the handler away from its file system agent. -/
theorem no_osFs_left (hnext : Follows lxc next) (hI : LxcInv next a)
    (hen : Enabled (lxcClass next) a l) (hawaited : OsFsAwaited a l)
    (hleaves : stateAfter (lxcClass next) a l ≠ a.state) (n : ℕ) :
    (a.effect l).pending (.subAgent n) = none := by
  by_contra hsome
  obtain ⟨s, hs⟩ := Option.ne_none_iff_exists'.mp hsome
  obtain ⟨rfl, hstate⟩ := osFs_effect hI hen hs
  obtain ⟨e, he, hmoves⟩ := emitted_of_leaves hleaves
  rw [hnext.next_eq lxc_total _ e hI.leaf, hstate] at hmoves
  have hevent := next_osFs e (Event.mem_all e) hmoves
  cases l with
  | event e' =>
    obtain rfl : e' = e := Option.some.inj he
    obtain ⟨hkill, hstop, hdirty⟩ := hawaited hstate (Option.isSome_iff_ne_none.mp
      (Option.isSome_iff_exists.mpr ⟨s, hs⟩)) e' rfl
    obtain ⟨hdone, herror⟩ := hen
    simp only [List.mem_cons, List.not_mem_nil, or_false] at hevent
    rcases hevent with h | h | h | h | h
    · exact hdone h
    · exact herror h
    · exact hkill h
    · exact hstop h
    · exact hdirty h
  | work m mv =>
    have hstart : lxc.methodAt a.state = some .startOsFs := (startOsFs_state hI.leaf).mpr hstate
    obtain rfl : m = .startOsFs := Option.some.inj (Eq.trans (Eq.symm hen.1) hstart)
    obtain rfl : mv = .start (.subAgent 0) plain := hen.2.1
    cases he
  | finish x failed mv =>
    obtain ⟨s', hs', -⟩ := hen
    obtain ⟨r, hr, hre⟩ := Option.map_eq_some_iff.mp he
    simp only [Agent.report, hs', Option.bind_some] at hr
    obtain ⟨c, hc, hrc⟩ := Option.bind_eq_some_iff.mp hr
    rcases finish_osFs hI hstate hs' hc with rfl | ⟨rfl, hcall⟩
    · obtain rfl := hre
      rw [← Option.some.inj hrc] at hevent
      have hlxc : Event.onLxcDone ∈ _ := hevent
      exact absurd hlxc (by decide)
    · have hcleared : (a.effect (.finish (.subAgent 0) failed mv)).pending (.subAgent 0) = none := by
        rcases hcall with rfl | rfl
        all_goals
          simp only [Agent.effect, hs', hc]
          exact clear_self _
      rw [hcleared] at hs
      cases hs

theorem leavesNothing (hnext : Follows lxc next) (hI : LxcInv next a)
    (hen : Enabled (lxcClass next) a l) (h : Undisturbed next a l) :
    LeavesNothing (lxcClass next) a l := by
  intro hleaves x s hx hs
  cases x with
  | postponed n => exact h.2 hleaves n s hs
  | subAgent n =>
    rw [no_osFs_left hnext hI hen h.1 hleaves n] at hs
    cases hs
  | query | rpc | callAfter | heavy | cmd pid => cases hx

theorem stateAfter_leaf (hnext : Follows lxc next) (hleaf : a.state ∈ lxc.leaves) :
    stateAfter (lxcClass next) a l ∈ lxc.leaves := by
  unfold stateAfter
  cases a.emitted l with
  | none => exact hleaf
  | some e =>
    show next a.state e ∈ lxc.leaves
    rw [hnext.next_eq lxc_total _ e hleaf]
    rcases edges_ok a.state hleaf e (Event.mem_all e) with hsame | hok
    · exact hsame.symm ▸ hleaf
    · exact hok.leaf

theorem leaveState_outlives {x : Slot} {s t : Started Event Method}
    (h : leaveState x s = some t) :
    t.origin = s.origin ∧ t.opts.outlivesState = s.opts.outlivesState := by
  cases x with
  | query | rpc | callAfter | heavy => cases h
  | cmd pid =>
    simp only [leaveState, Option.some.injEq] at h
    rw [← h]
    split <;> exact ⟨rfl, rfl⟩
  | postponed n => exact Option.some.inj h ▸ ⟨rfl, rfl⟩
  | subAgent n => exact Option.some.inj h ▸ ⟨rfl, rfl⟩

theorem LxcInv.perform (hnext : Follows lxc next) (hI : LxcInv next a)
    (hen : Enabled (lxcClass next) a l) (h : Undisturbed next a l) :
    LxcInv next (perform (lxcClass next) a l) := by
  have hknown := hI.known.perform hen (leavesNothing hnext hI hen h)
  unfold AgentActions.perform at hknown ⊢
  by_cases hstays : stateAfter (lxcClass next) a l = a.state
  · rw [if_pos hstays] at hknown ⊢
    obtain ⟨hstate, -⟩ := effect_state (a := a) l
    refine ⟨hknown, hstate ▸ hI.leaf, ?_, fun x s => outlives_effect hI hen⟩
    rw [hstate]
    exact fun n s => osFs_effect hI hen
  · rw [if_neg hstays] at hknown ⊢
    refine ⟨hknown, stateAfter_leaf hnext hI.leaf, ?_, ?_⟩
    · intro n t ht
      obtain ⟨s, hs, -⟩ := Option.bind_eq_some_iff.mp ht
      rw [no_osFs_left hnext hI hen h.1 hstays n] at hs
      cases hs
    · intro x t ht hout
      obtain ⟨s, hs, hleft⟩ := Option.bind_eq_some_iff.mp ht
      obtain ⟨horigin, hopts⟩ := leaveState_outlives hleft
      rw [hopts]
      exact outlives_effect hI hen hs (horigin ▸ hout)

theorem LxcInv.strictlyOwn (hI : LxcInv next a) (l : Label Event Method)
    (a' : Agent Path Event Method) : StrictlyOwn (lxcClass next) a l a' := by
  intro r hr hcompletion
  rcases hI.known.ownCompletion l a' r hr hcompletion with hown | hout
  · exact hown
  · rcases report_cases hr with horigin | ⟨x, s, failed, hs, horigin, c, hc, hevent⟩
    · rw [horigin]
    · rw [horigin] at hout
      have hlxc := hevent .onLxcDone (hI.callback_outliving hs hout hc)
      rw [IsCompletion, hlxc] at hcompletion
      rcases hcompletion with h | h <;> cases h

/-- The runs of an LXC handler. -/
def lxcRuns (next : Path → Event → Path) : System (Agent Path Event Method) (Label Event Method) :=
  agentRuns (lxcClass next) [.new]

theorem lxc_completions_own (hnext : Follows lxc next)
    {past : List (Agent Path Event Method × Label Event Method)}
    (run : (lxcRuns next).Run past a) (h : AllSteps (Undisturbed next) past) :
    EachTransition (StrictlyOwn (lxcClass next)) past a := by
  refine run.eachTransition_of_always (I := LxcInv next)
    (fun _ l a' hI _ => hI.strictlyOwn l a') ?_
  refine run.always_of_allSteps ?_ ?_ h
  · rintro b ⟨hstate, -, hnone⟩
    have hno : ∀ x s, b.pending x ≠ some s := by
      intro x s hs
      rw [hnone x] at hs
      cases hs
    refine ⟨fun x s hs => absurd hs (hno x s), ?_, fun n s hs => absurd hs (hno _ s),
      fun x s hs => absurd hs (hno x s)⟩
    rw [hstate]
    decide
  · rintro b l b' hI hl ⟨hen, rfl⟩
    exact hI.perform hnext hen hl

end LxcRuns

section LateReport

/-- A handler before anything has been asked of it. -/
def newHandler : Agent Path Event Method where
  state := [.new]
  entry := 0
  pending := fun _ => none

theorem newHandler_run (next : Path → Event → Path) : (lxcRuns next).Run [] newHandler :=
  System.Run.start ⟨rfl, rfl, fun _ => rfl⟩

/-- A query that is asked and answered. -/
def asked (m : Method) : List (Label Event Method) :=
  [.work m (.start .query plain), .finish .query false .rest]

def done (m : Method) : List (Label Event Method) :=
  [.work m (.report .onDone)]

/-- A handler starts up to the state that waits for its file system agent. -/
def upToOsFs : List (Label Event Method) :=
  [.event .onCmdStart] ++ asked .loadRow ++ asked .searchDi ++ done .checkHypervisor ++
    done .calculateAttrs ++ asked .saveRuntimeRow ++ asked .incrRunAttempts ++ done .killLxc ++
    [.work .unlinkIface (.start (.cmd 7) { plain with ignoreErrors := true }),
      .finish (.cmd 7) false .rest] ++
    done .removeFwRules ++ done .unmountFilesystems ++
    [.work .startOsFs (.start (.subAgent 0) plain)]

/-- It is killed there, unmounts what is mounted and asks for its row to be cleared. -/
def killedAtOsFs : List (Label Event Method) :=
  upToOsFs ++ [.event .onHkdKill] ++ done .unmountFilesystems ++
    [.work .clearRuntimeRow (.start .query plain)]

/-- The file system agent then tells that the file system is there: the handler stops and
drops the query that clears its row. -/
theorem os_fs_reports_late : ∃ past a l a', (lxcRuns (lxc.next 3)).Run ((a, l) :: past) a' ∧
    ¬ OwnCompletion (lxcClass (lxc.next 3)) a l a' ∧ a.state = [.stopping, .db] ∧
      a.pending .query ≠ none ∧ a'.state = [.stopped] ∧ a'.pending .query = none := by
  have hrun := replay_run (lxcClass (lxc.next 3)) killedAtOsFs (newHandler_run (lxc.next 3))
    (by decide)
  refine ⟨_, _, .finish (.subAgent 0) false .rest, _,
    hrun.extend ⟨by decide, rfl⟩, ?_, by decide, by decide,
    by decide, by decide⟩
  intro h
  have hlate := h ⟨.onDone, ⟨11, false⟩⟩ (by decide) (Or.inl rfl)
  exact absurd hlate (by decide)

end LateReport

section Dhcp

namespace Dhcp

inductive Name
  | new | running | run | delay | stopping | stopped
deriving DecidableEq, Repr

inductive Event
  | onRun | onDone | onError | onHkdStop | onTimeout
deriving DecidableEq, Repr

inductive Method
  | startDhcpd | setTimer | killCmd | onStopped
deriving DecidableEq, Repr

abbrev Path := List Name

def table : Table Name Event Method := [
  { name := [] },
  { name := [.new], transitions := [(.onRun, { path := [.running] })] },
  { name := [.running] },
  { name := [.running, .run], enter := some .startDhcpd
    transitions := [(.onDone, { path := [.delay] }), (.onHkdStop, { path := [.stopping] })] },
  { name := [.running, .delay], enter := some .setTimer
    transitions := [(.onTimeout, { path := [.run] }), (.onHkdStop, { path := [.stopped] })] },
  { name := [.stopping], enter := some .killCmd, ignore := [.onHkdStop]
    transitions := [(.onDone, { path := [.stopped] })] },
  { name := [.stopped], enter := some .onStopped }]

def plain : Opts Event Method where
  onDone := .event .onDone
  onError := .event .onError

/-- The options dhcpd is run with. -/
def dhcpdOpts : Opts Event Method :=
  { plain with ignoreErrors := true, outlivesState := true }

def does (m : Method) (mv : Move Event Method) : Prop :=
  match m with
  | .startDhcpd => runCmd dhcpdOpts mv
  | .setTimer => mv = .start .callAfter { plain with onDone := .event .onTimeout }
  | .killCmd | .onStopped => mv = .rest

instance (m : Method) (mv : Move Event Method) : Decidable (does m mv) := by
  cases m <;> unfold does <;> infer_instance

theorem does_goesOn (m : Method) (x : Slot) (opts : Opts Event Method) (m' : Method)
    (hdoes : does m (.start x opts))
    (hcall : opts.onDone = .method m' ∨ opts.onError = .method m') : m' = m := by
  cases m <;> simp [does, runCmd_start_iff] at hdoes <;> simp_all [plain, dhcpdOpts]

def dhcpClass : AgentClass Path Event Method where
  onDone := .onDone
  onError := .onError
  next := table.next 2
  methodAt := table.methodAt
  does := does
  goesOn := does_goesOn

def newHandler : Agent Path Event Method where
  state := [.new]
  entry := 0
  pending := fun _ => none

instance (m : Method) (mv : Move Event Method) : Decidable (dhcpClass.does m mv) :=
  inferInstanceAs (Decidable (does m mv))

theorem newHandler_run : (agentRuns dhcpClass [.new]).Run [] newHandler :=
  System.Run.start ⟨rfl, rfl, fun _ => rfl⟩

/-- The handler runs dhcpd and is then stopped with the node. -/
def stoppedServing : List (Label Event Method) :=
  [.event .onRun, .work .startDhcpd (.start (.cmd 9) dhcpdOpts), .event .onHkdStop]

/-- The end of dhcpd, started when its handler began to run, takes the handler from
stopping to stopped: the command was started to outlive its state. -/
theorem dhcpd_ends_in_later_state : ∃ past a l a',
    (agentRuns dhcpClass [.new]).Run ((a, l) :: past) a' ∧
      ¬ StrictlyOwn dhcpClass a l a' ∧ a.state = [.stopping] ∧ a'.state = [.stopped] := by
  have hrun := replay_run dhcpClass stoppedServing newHandler_run (by decide)
  refine ⟨_, _, .finish (.cmd 9) false .rest, _, hrun.extend ⟨by decide, rfl⟩,
    ?_, by decide, by decide⟩
  intro h
  have hlate := h ⟨.onDone, ⟨1, true⟩⟩ (by decide) (Or.inl rfl)
  exact absurd hlate (by decide)

end Dhcp

end Dhcp

section Claim

/-- Agents of any class hear the completions of their current state and of actions that
outlive theirs, an LXC handler of its current state alone, as long as no state is left with
a failure postponed or an agent at work. -/
theorem completions_belong :
    (∀ (P E M : Type) [DecidableEq P] (cls : AgentClass P E M) (new : P)
      (past : List (Agent P E M × Label E M)) (a : Agent P E M),
      (agentRuns cls new).Run past a → AllSteps (LeavesNothing cls) past →
        EachTransition (OwnCompletion cls) past a) ∧
    (∀ (next : Path → Event → Path) (past : List (Agent Path Event Method × Label Event Method))
      (a : Agent Path Event Method), Follows lxc next → (lxcRuns next).Run past a →
        AllSteps (Undisturbed next) past →
          EachTransition (StrictlyOwn (lxcClass next)) past a) :=
  ⟨fun _ _ _ _ _ _ _ _ run h => completions_own run h,
    fun _ _ _ hnext run h => lxc_completions_own hnext run h⟩

/-- The DHCP handler up to the stop, and an LXC handler killed while it loads its row. -/
theorem completions_belong_stopped :
    EachTransition (OwnCompletion Dhcp.dhcpClass)
      (replay Dhcp.dhcpClass [] Dhcp.newHandler Dhcp.stoppedServing).1
      (replay Dhcp.dhcpClass [] Dhcp.newHandler Dhcp.stoppedServing).2 ∧
    EachTransition (StrictlyOwn (lxcClass (lxc.next 3)))
      (replay (lxcClass (lxc.next 3)) [] newHandler
        [.event .onCmdStart, .work .loadRow (.start .query plain), .event .onHkdKill]).1
      (replay (lxcClass (lxc.next 3)) [] newHandler
        [.event .onCmdStart, .work .loadRow (.start .query plain), .event .onHkdKill]).2 := by
  constructor
  · refine completions_belong.1 _ _ _ Dhcp.dhcpClass [.new] _ _
      (replay_run _ _ Dhcp.newHandler_run (by decide)) ?_
    simp only [Dhcp.stoppedServing, replay, allSteps_cons]
    refine ⟨?_, ?_, ?_, by simp [AllSteps]⟩
    all_goals
      exact fun _ => harmless_of_none (fun n => ⟨rfl, rfl⟩)
  · refine completions_belong.2 _ _ _ (follows_next lxc_total)
      (replay_run _ _ (newHandler_run _) (by decide)) ?_
    simp only [replay, allSteps_cons]
    refine ⟨⟨?_, ?_⟩, ⟨?_, ?_⟩, ⟨?_, ?_⟩, by simp [AllSteps]⟩
    · exact fun hstate => absurd hstate (by decide)
    · exact fun _ n s => harmless_of_none (fun n => ⟨rfl, rfl⟩) (.postponed n) s rfl
    · exact fun hstate => absurd hstate (by decide)
    · exact fun _ n s => harmless_of_none (fun n => ⟨rfl, rfl⟩) (.postponed n) s rfl
    · exact fun hstate => absurd hstate (by decide)
    · exact fun _ n s => harmless_of_none (fun n => ⟨rfl, rfl⟩) (.postponed n) s rfl

end Claim

end Qvd.AgentReports
