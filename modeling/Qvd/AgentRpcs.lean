import Qvd.AgentQuery
import Qvd.LxcHandlerTable
import Qvd.Runs

/-!
The RPCs of an agent to the agent of a machine: how a reply is judged, when the call is
tried again, and how it ends. The calls are made on entering a state of the agent; both
continuations of a call are events that take the agent out of that state.
-/
namespace Qvd.AgentRpcs

open AgentQuery Runs StateTable LxcHandlerTable

abbrev Text := List Char

/-! ### Replies -/

/-- What JSON texts decode to. -/
inductive Json
  | null
  | bool (b : Bool)
  | num (v : Rat)
  | str (s : Text)
  | array (items : List Json)
  | object (members : List (Text × Json))

/-- Whether Perl takes a decoded value for true; `none` is an element that is not there. -/
def truth : Option Json → Bool
  | none => false
  | some .null => false
  | some (.bool b) => b
  | some (.num v) => v ≠ 0
  | some (.str s) => s ≠ [] && s ≠ ['0']
  | some (.array _) => true
  | some (.object _) => true

/-- What the decoder makes of the text of an array: it dies on what is not JSON. -/
inductive Decoded
  | died
  | undef
  | data (items : List Json)

abbrev Decoder := Text → Decoded

/-- What the HTTP client calls back with; a transport error comes as a status of its own. -/
structure Response where
  headers : List (Text × Text)
  body : Option Text

def Response.status (r : Response) : Text := (r.headers.lookup "Status".toList).getD []

/-- `/^2\d\d$/` -/
def isSuccess : Text → Bool
  | ['2', a, b] => a.isDigit && b.isDigit
  | ['2', a, b, '\n'] => a.isDigit && b.isDigit
  | _ => false

/-- `"[$_[2]]"` -/
def arrayText (r : Response) : Text := '[' :: r.body.getD [] ++ [']']

/-- The options of a call that its callback looks at. -/
structure Opts where
  retryCount : ℕ
  saveTo : Option String := none
  ignoreErrors : Bool := false
  runAndForget : Bool := false

def callOnDoneOrErrorCallback (o : Opts) (failed : Bool) : Continuation :=
  if o.runAndForget then .forgotten
  else if failed && !o.ignoreErrors then .onError
  else .onDone

inductive CallbackOutcome
  | dies
  | retries
  | continues (saved : Option (String × Option Json)) (k : Continuation)

/-- `_rpc_callback`. None of the agents that make RPCs has a method for results. -/
def rpcCallback (decode : Decoder) (o : Opts) (retryCount : ℕ) (r : Response) :
    CallbackOutcome :=
  if isSuccess r.status then
    match decode (arrayText r) with
    | .died => .dies
    | .undef => .continues none (callOnDoneOrErrorCallback o true)
    | .data items =>
      if truth items[1]? then .continues none (callOnDoneOrErrorCallback o true)
      else .continues (o.saveTo.map fun name => (name, items[0]?))
        (callOnDoneOrErrorCallback o false)
  else if 0 < retryCount then .retries
  else .continues none (callOnDoneOrErrorCallback o true)

/-! ### Calls -/

/-- What `rpc_watcher` holds: the request, or the timer for trying it again. -/
inductive Watcher
  | request
  | timer
deriving DecidableEq

/-- An agent since it entered the state that makes the call. -/
structure Agent (P : Type*) where
  state : P
  watcher : Option Watcher
  retryCount : ℕ
  saved : Option (String × Option Json)
  /-- the continuations run, each with the state it was run in -/
  continued : List (Continuation × P)

/-- A state that makes a call: its options, the events that continue it, and the states an
event can take the agent to. -/
structure Caller (P E : Type*) where
  opts : Opts
  issuing : P
  onDone : E
  onError : E
  moves : P → E → P → Prop
  moves_total : ∀ p e, ∃ q, moves p e q
  remembers : opts.runAndForget = false
  done_leaves : ∀ p, moves issuing onDone p → p ≠ issuing
  error_leaves : opts.ignoreErrors = false → ∀ p, moves issuing onError p → p ≠ issuing

inductive Label (E : Type*)
  | answer (r : Response)
  | delayed
  | raised (e : E)

section Calls

variable {P E : Type*} [DecidableEq P]

/-- Entering another state runs `leave_state`, which drops the watcher. -/
def Agent.goto (a : Agent P) (p : P) : Agent P :=
  if p = a.state then a else { a with state := p, watcher := none }

def Caller.event (c : Caller P E) : Continuation → Option E
  | .onDone => some c.onDone
  | .onError => some c.onError
  | .forgotten => none

/-- What an answer to the request leads to. -/
def answered (c : Caller P E) (a : Agent P) (b : Agent P) : CallbackOutcome → Prop
  | .dies => b = { a with watcher := none }
  | .retries => b = { a with watcher := some .timer, retryCount := a.retryCount - 1 }
  | .continues saved k => ∃ p, (∀ e, c.event k = some e → c.moves a.state e p) ∧
      (c.event k = none → p = a.state) ∧
      b = Agent.goto { a with
        watcher := none, saved := saved, continued := (k, a.state) :: a.continued } p

/-- The life of one call, up to the next time its state is entered. -/
def rpc (decode : Decoder) (c : Caller P E) : System (Agent P) (Label E) where
  init a := a = { state := c.issuing, watcher := some .request,
                  retryCount := c.opts.retryCount, saved := none, continued := [] }
  step a l b :=
    match l with
    | .answer r => a.watcher = some .request ∧
        answered c a b (rpcCallback decode c.opts a.retryCount r)
    | .delayed => a.watcher = some .timer ∧ b = { a with watcher := some .request }
    | .raised e => ∃ p, c.moves a.state e p ∧ (a.state = c.issuing ∨ p ≠ c.issuing) ∧
        b = a.goto p

/-- One continuation at most has run, in the state that made the call, and an agent that
waits for nothing is not in that state any more. -/
structure Ends (c : Caller P E) (a : Agent P) : Prop where
  once : a.continued.length ≤ 1
  inside : ∀ x ∈ a.continued, (x.1 = .onDone ∨ x.1 = .onError) ∧ x.2 = c.issuing
  waiting : a.watcher.isSome → a.continued = [] ∧ a.state = c.issuing
  gone : a.watcher = none → a.state ≠ c.issuing

/-- After an answer the agent tries again, or has run exactly one continuation. -/
def Continued (_ : Agent P) (l : Label E) (b : Agent P) : Prop :=
  ∀ r, l = .answer r → b.watcher = some .timer ∨ b.continued.length = 1

/-- The decoder does not die of the answer. -/
def Decodes (decode : Decoder) (_ : Agent P) (l : Label E) : Prop :=
  ∀ r, l = .answer r → isSuccess r.status → decode (arrayText r) ≠ .died

def Label.isTurn : Label E → Bool
  | .answer _ => true
  | .delayed => true
  | .raised _ => false

/-- How many turns a call can still take. -/
def turnsLeft (a : Agent P) : ℕ :=
  match a.watcher with
  | some .request => 2 * a.retryCount + 1
  | some .timer => 2 * a.retryCount + 2
  | none => 0

end Calls

/-! ### Single turns -/

section Turns

variable {P E : Type*} {decode : Decoder} {c : Caller P E} {a b : Agent P} {r : Response}

/-- The callback continues with one of the two continuations of the call. -/
theorem continues_cases {o : Opts} {n : ℕ} {saved : Option (String × Option Json)}
    {k : Continuation} (hkeeps : o.runAndForget = false)
    (h : rpcCallback decode o n r = .continues saved k) :
    k = .onDone ∨ (k = .onError ∧ o.ignoreErrors = false) := by
  have hk : ∃ failed, k = callOnDoneOrErrorCallback o failed := by
    unfold rpcCallback at h
    split at h
    · split at h
      · cases h
      · cases h
        exact ⟨true, rfl⟩
      · split at h
        · cases h
          exact ⟨true, rfl⟩
        · cases h
          exact ⟨false, rfl⟩
    · split at h
      · cases h
      · cases h
        exact ⟨true, rfl⟩
  obtain ⟨failed, rfl⟩ := hk
  cases hignore : o.ignoreErrors <;> cases failed <;>
    simp [callOnDoneOrErrorCallback, hkeeps, hignore]

/-- The callback dies exactly of what the decoder dies of. -/
theorem dies_iff {o : Opts} {n : ℕ} :
    rpcCallback decode o n r = .dies ↔ isSuccess r.status ∧ decode (arrayText r) = .died := by
  unfold rpcCallback
  split
  · next hsuccess =>
    cases hdecoded : decode (arrayText r) with
    | died => simp [hsuccess]
    | undef => simp
    | data items =>
      refine iff_of_false (fun h => ?_) fun h => by cases h.2
      simp only at h
      split at h <;> cases h
  · next hsuccess =>
    refine iff_of_false (fun h => ?_) fun h => hsuccess h.1
    split at h <;> cases h

theorem retries_pos {o : Opts} {n : ℕ} (h : rpcCallback decode o n r = .retries) : 0 < n := by
  unfold rpcCallback at h
  split at h
  · split at h
    · cases h
    · cases h
    · split at h <;> cases h
  · split at h
    · assumption
    · cases h

/-- A continuation takes the agent out of the state that made the call. -/
theorem leaves_of_continues {n : ℕ} {saved : Option (String × Option Json)} {k : Continuation}
    (h : rpcCallback decode c.opts n r = .continues saved k) :
    (k = .onDone ∨ k = .onError) ∧
      ∃ e, c.event k = some e ∧ ∀ p, c.moves c.issuing e p → p ≠ c.issuing := by
  rcases continues_cases c.remembers h with rfl | ⟨rfl, hheeds⟩
  · exact ⟨.inl rfl, c.onDone, rfl, c.done_leaves⟩
  · exact ⟨.inr rfl, c.onError, rfl, c.error_leaves hheeds⟩

/-- What continuing a call leaves of it. -/
theorem answered_continues [DecidableEq P] {n : ℕ} {saved : Option (String × Option Json)}
    {k : Continuation}
    (h : rpcCallback decode c.opts n r = .continues saved k) (hstate : a.state = c.issuing)
    (hb : answered c a b (.continues saved k)) :
    b.watcher = none ∧ b.state ≠ c.issuing ∧ b.continued = (k, c.issuing) :: a.continued := by
  obtain ⟨-, e, hevent, hleaves⟩ := leaves_of_continues h
  obtain ⟨p, hmoves, -, rfl⟩ := hb
  have hp : p ≠ c.issuing := hleaves p (hstate ▸ hmoves e hevent)
  have hmoved : p ≠ a.state := hstate ▸ hp
  rw [Agent.goto, if_neg hmoved]
  exact ⟨rfl, hp, by rw [hstate]⟩

end Turns

/-! ### Whole calls -/

section Runs

variable {P E : Type*} [DecidableEq P] {decode : Decoder} {c : Caller P E} {a b : Agent P}
  {l : Label E}

/-- The part of `Ends` that no answer breaks. -/
structure Safe (c : Caller P E) (a : Agent P) : Prop where
  once : a.continued.length ≤ 1
  inside : ∀ x ∈ a.continued, (x.1 = .onDone ∨ x.1 = .onError) ∧ x.2 = c.issuing
  waiting : a.watcher.isSome → a.continued = [] ∧ a.state = c.issuing

omit [DecidableEq P] in
theorem ends_iff : Ends c a ↔ Safe c a ∧ (a.watcher = none → a.state ≠ c.issuing) :=
  ⟨fun h => ⟨⟨h.once, h.inside, h.waiting⟩, h.gone⟩,
    fun ⟨h, hover⟩ => ⟨h.once, h.inside, h.waiting, hover⟩⟩

theorem safe_init (h : (rpc decode c).init a) : Safe c a := by
  rw [h]
  exact ⟨Nat.zero_le _, by simp, fun _ => ⟨rfl, rfl⟩⟩

theorem ends_init (h : (rpc decode c).init a) : Ends c a :=
  ends_iff.mpr ⟨safe_init h, by rw [h]; simp⟩

theorem safe_step (hsafe : Safe c a) (hstep : (rpc decode c).step a l b) : Safe c b := by
  cases l with
  | answer r =>
    obtain ⟨hrequest, hanswered⟩ := hstep
    obtain ⟨hfresh, hstate⟩ := hsafe.waiting (by rw [hrequest]; rfl)
    cases hcallback : rpcCallback decode c.opts a.retryCount r with
    | dies =>
      rw [hcallback] at hanswered
      obtain rfl := hanswered
      exact ⟨hsafe.once, hsafe.inside, fun h => by cases h⟩
    | retries =>
      rw [hcallback] at hanswered
      obtain rfl := hanswered
      exact ⟨hsafe.once, hsafe.inside, fun _ => ⟨hfresh, hstate⟩⟩
    | continues saved k =>
      rw [hcallback] at hanswered
      obtain ⟨hnone, -, hcontinued⟩ := answered_continues hcallback hstate hanswered
      rw [hfresh] at hcontinued
      refine ⟨by rw [hcontinued]; rfl, fun x hx => ?_, fun h => by rw [hnone] at h; cases h⟩
      rw [hcontinued, List.mem_singleton] at hx
      rw [hx]
      exact ⟨(leaves_of_continues hcallback).1, rfl⟩
  | delayed =>
    obtain ⟨htimer, rfl⟩ := hstep
    exact ⟨hsafe.once, hsafe.inside, fun _ => hsafe.waiting (by rw [htimer]; rfl)⟩
  | raised e =>
    obtain ⟨p, -, -, rfl⟩ := hstep
    unfold Agent.goto
    split
    · exact hsafe
    · exact ⟨hsafe.once, hsafe.inside, fun h => by cases h⟩

/-- A step ends well exactly if the decoder does not die of its answer. -/
theorem ends_step (hends : Ends c a) (hstep : (rpc decode c).step a l b) :
    (Ends c b ∧ Continued a l b) ↔ Decodes decode a l := by
  have hsafe := safe_step (ends_iff.mp hends).1 hstep
  rw [ends_iff, and_iff_right hsafe]
  cases l with
  | answer r =>
    obtain ⟨hrequest, hanswered⟩ := hstep
    obtain ⟨hfresh, hstate⟩ := hends.waiting (by rw [hrequest]; rfl)
    have hdecodes : Decodes decode a (.answer r : Label E) ↔
        rpcCallback decode c.opts a.retryCount r ≠ .dies := by
      rw [Ne, dies_iff, not_and]
      exact ⟨fun h => h r rfl, fun h _ heq => by cases heq; exact h⟩
    rw [hdecodes]
    cases hcallback : rpcCallback decode c.opts a.retryCount r with
    | dies =>
      rw [hcallback] at hanswered
      obtain rfl := hanswered
      exact iff_of_false (fun h => h.1 rfl hstate) fun h => h rfl
    | retries =>
      rw [hcallback] at hanswered
      obtain rfl := hanswered
      exact iff_of_true ⟨fun h => (nomatch h), fun _ _ => .inl rfl⟩ (by simp)
    | continues saved k =>
      rw [hcallback] at hanswered
      obtain ⟨-, hleft, hcontinued⟩ := answered_continues hcallback hstate hanswered
      exact iff_of_true ⟨fun _ => hleft, fun _ _ => .inr (by rw [hcontinued, hfresh]; rfl)⟩
        (by simp)
  | delayed =>
    obtain ⟨-, rfl⟩ := hstep
    exact iff_of_true ⟨fun h => (nomatch h), fun _ h => (nomatch h)⟩ fun _ h => (nomatch h)
  | raised e =>
    obtain ⟨p, -, hagain, rfl⟩ := hstep
    refine iff_of_true ⟨?_, fun _ h => (nomatch h)⟩ fun _ h => (nomatch h)
    unfold Agent.goto
    split
    · exact hends.gone
    · next hmoved => exact fun _ => hagain.elim (fun hstate => hstate ▸ hmoved) id

/-- Every turn of a call uses up one of those left. -/
theorem turnsLeft_step (hstep : (rpc decode c).step a l b) :
    turnsLeft b + (if l.isTurn then 1 else 0) ≤ turnsLeft a := by
  cases l with
  | answer r =>
    obtain ⟨hrequest, hanswered⟩ := hstep
    have ha : turnsLeft a = 2 * a.retryCount + 1 := by rw [turnsLeft, hrequest]
    cases hcallback : rpcCallback decode c.opts a.retryCount r with
    | dies =>
      rw [hcallback] at hanswered
      obtain rfl := hanswered
      rw [ha]
      exact Nat.le_add_left _ _
    | retries =>
      rw [hcallback] at hanswered
      obtain rfl := hanswered
      have hpos := retries_pos hcallback
      rw [ha]
      show 2 * (a.retryCount - 1) + 2 + 1 ≤ _
      omega
    | continues saved k =>
      rw [hcallback] at hanswered
      obtain ⟨p, -, -, rfl⟩ := hanswered
      have hnone : (Agent.goto { a with
          watcher := none, saved := saved, continued := (k, a.state) :: a.continued } p).watcher =
            none := by
        unfold Agent.goto
        split <;> rfl
      rw [ha, turnsLeft, hnone]
      exact Nat.le_add_left _ _
  | delayed =>
    obtain ⟨htimer, rfl⟩ := hstep
    rw [turnsLeft, turnsLeft, htimer]
    exact Nat.le_refl _
  | raised e =>
    obtain ⟨p, -, -, rfl⟩ := hstep
    unfold Agent.goto
    split
    · exact Nat.le_refl _
    · exact Nat.zero_le _

theorem turns_of_run {past : List (Agent P × Label E)} (run : (rpc decode c).Run past a) :
    past.countP (fun e => e.2.isTurn) + turnsLeft a ≤ 2 * c.opts.retryCount + 1 := by
  induction run with
  | start h =>
    rw [h]
    exact Nat.le_of_eq (Nat.zero_add _)
  | extend _ hstep ih =>
    have hturn := turnsLeft_step hstep
    rw [List.countP_cons]
    dsimp only
    omega

/-- An agent that waits can be answered whatever the answer is, and its delay can end. -/
theorem waits_on (a : Agent P) :
    (a.watcher = some .request → ∀ r, ∃ b, (rpc decode c).step a (.answer r) b) ∧
      (a.watcher = some .timer → ∃ b, (rpc decode c).step a .delayed b) := by
  refine ⟨fun hrequest r => ?_, fun htimer => ⟨_, htimer, rfl⟩⟩
  cases hcallback : rpcCallback decode c.opts a.retryCount r with
  | dies => exact ⟨_, hrequest, by rw [hcallback]; exact rfl⟩
  | retries => exact ⟨_, hrequest, by rw [hcallback]; exact rfl⟩
  | continues saved k =>
    obtain ⟨-, e, hevent, -⟩ := leaves_of_continues hcallback
    obtain ⟨p, hmoves⟩ := c.moves_total a.state e
    have hanswered : answered c a (Agent.goto { a with
        watcher := none, saved := saved, continued := (k, a.state) :: a.continued } p)
        (.continues saved k) := by
      refine ⟨p, fun e' h => ?_, fun h => (nomatch hevent.symm.trans h), rfl⟩
      rw [hevent] at h
      exact Option.some.inj h ▸ hmoves
    exact ⟨_, hrequest, by rw [hcallback]; exact hanswered⟩

end Runs

/-! ### The states that make calls -/

section Callers

inductive MonitorState
  | new | pinging | idle | stopped
deriving DecidableEq, Repr

inductive MonitorEvent
  | onRun | onStop | onDone | onError | onTimeout
deriving DecidableEq, Repr

inductive MonitorMethod
  | ping | setTimer
deriving DecidableEq, Repr

/-- The table of the monitor of a machine's agent. -/
def vmaMonitor : Table MonitorState MonitorEvent MonitorMethod := [
  { name := [], transitions := [(.onStop, { path := [.stopped] })] },
  { name := [.new], transitions := [(.onRun, { path := [.pinging] })] },
  { name := [.pinging], enter := some .ping
    transitions := [(.onDone, { path := [.idle] }), (.onError, { path := [.idle] })] },
  { name := [.idle], enter := some .setTimer
    transitions := [(.onTimeout, { path := [.pinging] })] },
  { name := [.stopped], transitions := [(.onRun, { path := [.pinging] })] }]

theorem vmaMonitor_total : vmaMonitor.Total 2 := by
  intro path hpath e
  have hall : ∀ path ∈ vmaMonitor.leaves,
      ∀ e ∈ [MonitorEvent.onRun, .onStop, .onDone, .onError, .onTimeout],
        (vmaMonitor.react 2 path e).isSome = true := by
    decide
  exact hall path hpath e (by cases e <;> decide)

/-- Where an event of the monitor can lead. The callback that runs before the end of a ping
may stop the monitor, before the event takes effect or instead of it. -/
inductive MonitorMove (next : List MonitorState → MonitorEvent → List MonitorState) :
    List MonitorState → MonitorEvent → List MonitorState → Prop
  | plain (p : List MonitorState) (e : MonitorEvent) : MonitorMove next p e (next p e)
  | stoppedBefore (p : List MonitorState) (e : MonitorEvent) (h : e ∈ [.onDone, .onError]) :
    MonitorMove next p e (next (next p .onStop) e)
  | stoppedInstead (p : List MonitorState) (e : MonitorEvent) (h : e ∈ [.onDone, .onError]) :
    MonitorMove next p e (next p .onStop)

theorem monitor_leaves {next : List MonitorState → MonitorEvent → List MonitorState}
    (hnext : Follows vmaMonitor next) {e : MonitorEvent} (he : e ∈ [.onDone, .onError])
    {p : List MonitorState} (h : MonitorMove next [.pinging] e p) : p ≠ [.pinging] := by
  have hplain : ∀ e ∈ [MonitorEvent.onDone, .onError],
      vmaMonitor.next 2 [.pinging] e = [.idle] ∧ vmaMonitor.next 2 [.stopped] e = [.stopped] := by
    decide
  have hstop : next [.pinging] .onStop = [.stopped] := by
    rw [hnext.next_eq vmaMonitor_total _ _ (by decide)]
    decide
  cases h with
  | plain =>
    rw [hnext.next_eq vmaMonitor_total _ _ (by decide), (hplain e he).1]
    decide
  | stoppedBefore =>
    rw [hstop, hnext.next_eq vmaMonitor_total _ _ (by decide), (hplain e he).2]
    decide
  | stoppedInstead =>
    rw [hstop]
    decide

/-- `_ping`, of the monitor of the agent. -/
def ping (next : List MonitorState → MonitorEvent → List MonitorState)
    (hnext : Follows vmaMonitor next) : Caller (List MonitorState) MonitorEvent where
  opts := { retryCount := 0 }
  issuing := [.pinging]
  onDone := .onDone
  onError := .onError
  moves := MonitorMove next
  moves_total p e := ⟨_, .plain p e⟩
  remembers := rfl
  done_leaves _ h := monitor_leaves hnext (by decide) h
  error_leaves _ _ h := monitor_leaves hnext (by decide) h

theorem handler_leaves {next : Path → Event → Path} (hnext : Follows lxc next) {p q : Path}
    {e : Event} (hleaf : p ∈ lxc.leaves) (hleaves : lxc.next 3 p e ≠ p) (h : q = next p e) :
    q ≠ p := by
  rw [h, hnext.next_eq lxc_total p e hleaf]
  exact hleaves

/-- `_shutdown`, of the handler of a machine. -/
def shutdown (next : Path → Event → Path) (hnext : Follows lxc next) (retryCount : ℕ) :
    Caller Path Event where
  opts := { retryCount := retryCount }
  issuing := [.stopping, .shutdown, .shuttingdown]
  onDone := .onDone
  onError := .onError
  moves p e q := q = next p e
  moves_total p e := ⟨_, rfl⟩
  remembers := rfl
  done_leaves _ := handler_leaves hnext (by decide) (by decide)
  error_leaves _ _ := handler_leaves hnext (by decide) (by decide)

/-- `_expire`, of the handler of a machine. -/
def expire (next : Path → Event → Path) (hnext : Follows lxc next) : Caller Path Event where
  opts := { retryCount := 0, ignoreErrors := true }
  issuing := [.running, .expiring]
  onDone := .onDone
  onError := .onError
  moves p e q := q = next p e
  moves_total p e := ⟨_, rfl⟩
  remembers := rfl
  done_leaves _ := handler_leaves hnext (by decide) (by decide)
  error_leaves h := nomatch h

end Callers

/-! ### Runs of calls -/

/-- A call takes no more turns than its retries allow, and no waiting agent is stuck; and in
every state of its run the call ends as it should exactly if the decoder dies of none of the
successful answers. -/
theorem rpc_ends_iff {P E : Type*} [DecidableEq P] (decode : Decoder) (c : Caller P E)
    (past : List (Agent P × Label E)) (a : Agent P) (run : (rpc decode c).Run past a) :
    past.countP (fun e => e.2.isTurn) ≤ 2 * c.opts.retryCount + 1 ∧
      (a.watcher = some .request → ∀ r, ∃ b, (rpc decode c).step a (.answer r) b) ∧
      (a.watcher = some .timer → ∃ b, (rpc decode c).step a .delayed b) ∧
      (Always (Ends c) past a ∧ EachTransition Continued past a ↔
        AllSteps (Decodes decode) past) := by
  refine ⟨Nat.le_of_add_right_le (turns_of_run run), (waits_on a).1, (waits_on a).2, ?_⟩
  have hstep (a : Agent P) (l : Label E) (b : Agent P) (_ : Safe c a) (hends : Ends c a)
      (hstep : (rpc decode c).step a l b) : Ends c b ∧ Continued a l b ↔ Decodes decode a l :=
    ends_step hends hstep
  exact run.always_and_eachTransition_iff (fun _ h => ⟨safe_init h, ends_init h⟩)
    (fun _ _ _ hsafe h => safe_step hsafe h) hstep

/-- A decoder that knows no text but that of the empty array. -/
def emptyDecoder (text : Text) : Decoded :=
  if text = "[]".toList then .data [] else .died

/-- The monitor with its table for its steps. -/
def tablePing : Caller (List MonitorState) MonitorEvent :=
  ping (vmaMonitor.next 2) (follows_next vmaMonitor_total)

def ok (body : String) : Response where
  headers := [("Status".toList, "200".toList)]
  body := some body.toList

/-- The monitor starts to ping. -/
def pinging : Agent (List MonitorState) where
  state := [.pinging]
  watcher := some .request
  retryCount := 0
  saved := none
  continued := []

/-- The monitor after an answer without a result. -/
def pinged : Agent (List MonitorState) where
  state := [.idle]
  watcher := none
  retryCount := 0
  saved := none
  continued := [(.onDone, [.pinging])]

/-- One ping that succeeds. -/
def onePing : List (Agent (List MonitorState) × Label MonitorEvent) :=
  [(pinging, .answer (ok ""))]

theorem run_pinged : (rpc emptyDecoder tablePing).Run onePing pinged := by
  refine .extend (.start rfl) ⟨rfl, [.idle], fun e he => ?_, fun he => (nomatch he), rfl⟩
  obtain rfl := Option.some.inj he
  exact .plain [.pinging] .onDone

theorem rpc_ends_iff_pinged :
    onePing.countP (fun e => e.2.isTurn) ≤ 2 * 0 + 1 ∧
      (pinged.watcher = some .request →
        ∀ r, ∃ b, (rpc emptyDecoder tablePing).step pinged (.answer r) b) ∧
      (pinged.watcher = some .timer →
        ∃ b, (rpc emptyDecoder tablePing).step pinged .delayed b) ∧
      (Always (Ends tablePing) onePing pinged ∧ EachTransition Continued onePing pinged ↔
        AllSteps (Decodes emptyDecoder) onePing) :=
  rpc_ends_iff emptyDecoder tablePing onePing pinged run_pinged

/-- A monitor whose answer does not decode: it waits for nothing and stays in its state. -/
theorem malformed_answer_strands : ∃ past a, (rpc emptyDecoder tablePing).Run past a ∧
    ¬(Always (Ends tablePing) past a ∧ EachTransition Continued past a) := by
  refine ⟨[(pinging, .answer (ok "oops"))], { pinging with watcher := none },
    .extend (.start rfl) ⟨rfl, ?_⟩, fun h => h.1.1.gone rfl rfl⟩
  have hcallback : rpcCallback emptyDecoder tablePing.opts 0 (ok "oops") = .dies := by
    rw [dies_iff]
    exact ⟨by decide, rfl⟩
  rw [show pinging.retryCount = 0 from rfl, hcallback]
  rfl

end Qvd.AgentRpcs
