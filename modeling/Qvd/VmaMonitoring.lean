import Qvd.LxcHandlerTable
import Qvd.Runs

/-!
How the handler of a machine watches the machine's agent: the time the agent was last seen
alive, the number of pings it has failed since, and what the expiration monitor has to do
with them.
-/
namespace Qvd.VmaMonitoring

open StateTable LxcHandlerTable Runs

abbrev Time := ℕ

/-- What `internal.hkd.vmhandler.vma.failed` allows in one main state. -/
structure Limits where
  maxCount : ℕ
  maxTime : Time

structure Settings where
  onStarting : Limits
  onRunning : Limits
  /-- `internal.vm.debug.enable` -/
  debugEnable : Bool

/-- A handler with what it remembers of the agent; an entry that is not there counts as 0. -/
structure Handler where
  state : Path
  lastSeenAlive : Time
  failedVmaCount : ℕ
deriving DecidableEq

/-- A row of `vms_to_be_expired`, with the two booleans as the database writes them. -/
structure ExpiredRow where
  soft : Option String
  hard : Option String

def booleanDb2perl (v : Option String) : Option String :=
  v.filter (fun v => v ≠ "f")

/-- What `_on_expired_vm` calls on the handler of the machine. -/
def onExpiredVm (row : ExpiredRow) : Event :=
  if (booleanDb2perl row.hard).isSome then .onCmdStop else .onExpired

/-- What can happen to a handler. -/
inductive Occurrence
  | expired (row : ExpiredRow) (now : Time)
  /-- a command, a signal of the daemon, or the end of one of the handler's own actions -/
  | raised (e : Event) (now : Time)
  | pingOk (now : Time)
  | pingFailed (now : Time)

section Handlers

variable (next : Path → Event → Path) (c : Settings)

/-- The monitor of the agent runs in the states that start it, and in no other. -/
def Monitored (h : Handler) : Prop := lxc.methodAt h.state = some .startVmaMonitor

instance (h : Handler) : Decidable (Monitored h) :=
  inferInstanceAs (Decidable (_ = _))

def startVmaMonitor (h : Handler) (now : Time) : Handler :=
  { h with lastSeenAlive := now, failedVmaCount := 0 }

/-- Entering another state; of the methods called there only one is of interest here. -/
def enter (h : Handler) (path : Path) (now : Time) : Handler :=
  if path = h.state then h
  else if lxc.methodAt path = some .startVmaMonitor then
    startVmaMonitor { h with state := path } now
  else { h with state := path }

def raise (h : Handler) (e : Event) (now : Time) : Handler :=
  enter h (next h.state e) now

def onVmaMonitorOk (h : Handler) (now : Time) : Handler :=
  raise next { h with lastSeenAlive := now, failedVmaCount := 0 } .onAlive now

/-- The limits for the main state, by the key that `_on_vma_monitor_failed` makes of it. -/
def limits (h : Handler) : Limits :=
  if h.state.head? = some .starting then c.onStarting else c.onRunning

def onVmaMonitorFailed (h : Handler) (now : Time) : Handler :=
  let h' := { h with failedVmaCount := h.failedVmaCount + 1 }
  if (limits c h).maxCount ≤ h'.failedVmaCount ∧
      (limits c h).maxTime < now - h'.lastSeenAlive then
    if c.debugEnable then raise next h' .onGotoDebug now
    else raise next h' .onDead now
  else h'

def occur (h : Handler) : Occurrence → Handler
  | .expired row now => raise next h (onExpiredVm row) now
  | .raised e now => raise next h e now
  | .pingOk now => onVmaMonitorOk next h now
  | .pingFailed now => onVmaMonitorFailed next c h now

/-- The events of the agent are raised by the monitor's reports, expirations by the rows. -/
def CanOccur (h : Handler) : Occurrence → Prop
  | .expired _ _ => True
  | .raised e _ => e ∉ [Event.onAlive, .onDead, .onGotoDebug, .onExpired]
  | .pingOk _ => Monitored h
  | .pingFailed _ => Monitored h

/-- The life of a handler. -/
def handler : System Handler Occurrence where
  init h := h = { state := [.new], lastSeenAlive := 0, failedVmaCount := 0 }
  step h o h' := CanOccur h o ∧ h' = occur next c h o

end Handlers

/-! ### What is asked of the monitoring -/

def monitoring : Path := [.running, .monitoring]

abbrev Past := List (Handler × Occurrence)

/-- The handler has monitored the machine as a running one before. -/
def HasMonitored (past : Past) : Prop := ∃ e ∈ past, e.1.state = monitoring

def Occurrence.isPing : Occurrence → Prop
  | .pingOk _ => True
  | .pingFailed _ => True
  | _ => False

def Occurrence.isAnswer : Occurrence → Bool
  | .pingOk _ => true
  | _ => false

def Occurrence.isFailure : Occurrence → Bool
  | .pingFailed _ => true
  | _ => false

/-- While the machine runs, the time and the counter change with the result of a ping, or
when the handler first comes to monitor the running machine. -/
def Kept (past : Past) (h : Handler) (o : Occurrence) (h' : Handler) : Prop :=
  h.state.head? = some .running →
    (h'.lastSeenAlive = h.lastSeenAlive ∧ h'.failedVmaCount = h.failedVmaCount) ∨ o.isPing ∨
      (h'.state = monitoring ∧ ¬HasMonitored past)

def EachKept : Past → Handler → Prop
  | [], _ => True
  | (h, o) :: past, h' => Kept past h o h' ∧ EachKept past h

/-- The handler at the start of the latest steps of a run. -/
def startOf : Past → Handler → Handler
  | [], h => h
  | (s, _) :: steps, _ => startOf steps s

def failures (steps : Past) : ℕ := steps.countP (fun e => e.2.isFailure)

/-- Where a machine declared dead is taken, to be looked at or to be stopped. -/
def afterDead (c : Settings) : Path :=
  if c.debugEnable then [.debugging, .savingState] else [.stopping, .stop, .savingState]

/-- However long the agent of a monitored machine has not answered, the ping that brings the
failures and the time since it was seen alive over the limits declares the machine dead. -/
def Detects (next : Path → Event → Path) (c : Settings) (past : Past) (h : Handler) : Prop :=
  ∀ steps old, past = steps ++ old → (∀ e ∈ steps, e.2.isAnswer = false) →
    (startOf steps h).state = monitoring → h.state = monitoring → ∀ now,
      c.onRunning.maxCount ≤ (startOf steps h).failedVmaCount + failures steps + 1 →
      (startOf steps h).lastSeenAlive + c.onRunning.maxTime < now →
      (onVmaMonitorFailed next c h now).state = afterDead c

/-- What starts the monitoring of a running machine a second time: an expiration while it is
monitored, or an answer that ends its time in debugging. -/
def Disturbs (past : Past) (h : Handler) : Occurrence → Prop
  | .expired row _ => onExpiredVm row = .onExpired ∧ h.state = monitoring
  | .pingOk _ => h.state = [.debugging, .monitoring] ∧ HasMonitored past
  | _ => False

/-! ### The states around the monitoring -/

/-- The machine runs no more. -/
def ended (path : Path) : Bool :=
  path.head? ≠ some .new && path.head? ≠ some .starting && path.head? ≠ some .running

/-- What is needed of the transitions of the table. -/
structure EdgeOk (p : Path) (e : Event) (q : Path) : Prop where
  leaf : q ∈ lxc.leaves
  ended : ended p = true → (p = [.debugging, .monitoring] ∧ e = .onAlive) ∨ ended q = true
  monitored : p = monitoring → e = .onExpired ∨ q = monitoring ∨ VmaMonitoring.ended q = true
  starts : p.head? = some .running → q = p ∨ lxc.methodAt q ≠ some .startVmaMonitor ∨
    q = monitoring

theorem edges_ok : ∀ p ∈ lxc.leaves, ∀ e ∈ Event.all, EdgeOk p e (lxc.next 3 p e) := by
  intro p hp e he
  have hmoves : ∀ p ∈ lxc.leaves, ∀ e ∈ Event.all,
      (ended p = true → (p = [.debugging, .monitoring] ∧ e = .onAlive) ∨
        ended (lxc.next 3 p e) = true) ∧
      (p = monitoring → e = .onExpired ∨ lxc.next 3 p e = monitoring ∨
        ended (lxc.next 3 p e) = true) ∧
      (p.head? = some .running → lxc.next 3 p e = p ∨
        lxc.methodAt (lxc.next 3 p e) ≠ some .startVmaMonitor ∨
          lxc.next 3 p e = monitoring) := by
    decide +kernel
  obtain ⟨hended, hmonitored, hstarts⟩ := hmoves p hp e he
  exact ⟨lxc_wellFormed.next_mem 3 hp e, hended, hmonitored, hstarts⟩

theorem next_dead : lxc.next 3 monitoring .onDead = [.stopping, .stop, .savingState] ∧
    lxc.next 3 monitoring .onGotoDebug = [.debugging, .savingState] := by
  decide +kernel

/-! ### Single occurrences -/

section Occurrences

variable {next : Path → Event → Path} {c : Settings} {h h' : Handler} {o : Occurrence}
  {past : Past}

/-- The machine is declared dead by a ping that fails now. -/
def OverLimits (c : Settings) (h : Handler) (now : Time) : Prop :=
  (limits c h).maxCount ≤ h.failedVmaCount + 1 ∧ (limits c h).maxTime < now - h.lastSeenAlive

instance (c : Settings) (h : Handler) (now : Time) : Decidable (OverLimits c h now) :=
  inferInstanceAs (Decidable (_ ∧ _))

/-- The event an occurrence raises, if it raises one. -/
def signal (c : Settings) (h : Handler) : Occurrence → Option Event
  | .expired row _ => some (onExpiredVm row)
  | .raised e _ => some e
  | .pingOk _ => some .onAlive
  | .pingFailed now =>
    if OverLimits c h now then some (if c.debugEnable then .onGotoDebug else .onDead) else none

@[simp] theorem state_enter (h : Handler) (path : Path) (now : Time) :
    (enter h path now).state = path := by
  unfold enter
  split
  · next heq => exact heq.symm
  · split <;> rfl

@[simp] theorem state_raise (h : Handler) (e : Event) (now : Time) :
    (raise next h e now).state = next h.state e :=
  state_enter _ _ _

theorem onVmaMonitorFailed_eq (h : Handler) (now : Time) :
    onVmaMonitorFailed next c h now =
      if OverLimits c h now then raise next { h with failedVmaCount := h.failedVmaCount + 1 }
        (if c.debugEnable then .onGotoDebug else .onDead) now
      else { h with failedVmaCount := h.failedVmaCount + 1 } := by
  unfold onVmaMonitorFailed OverLimits
  cases c.debugEnable
  · rfl
  · rfl

theorem state_onVmaMonitorFailed (h : Handler) (now : Time) :
    (onVmaMonitorFailed next c h now).state = if OverLimits c h now then
      next h.state (if c.debugEnable then .onGotoDebug else .onDead) else h.state := by
  rw [onVmaMonitorFailed_eq]
  split
  · exact state_raise _ _ now
  · rfl

/-- Only the event an occurrence raises moves the handler. -/
theorem state_occur (h : Handler) (o : Occurrence) :
    (occur next c h o).state = ((signal c h o).map (next h.state)).getD h.state := by
  cases o with
  | expired row now => exact state_raise h _ now
  | raised e now => exact state_raise h e now
  | pingOk now => exact state_raise _ _ now
  | pingFailed now =>
    rw [occur, state_onVmaMonitorFailed, signal]
    split
    · rfl
    · rfl

/-- A handler that stays in its state, or enters one without a monitor, remembers what it
did. -/
theorem fields_enter {path : Path} {now : Time}
    (hpath : path = h.state ∨ lxc.methodAt path ≠ some .startVmaMonitor) :
    (enter h path now).lastSeenAlive = h.lastSeenAlive ∧
      (enter h path now).failedVmaCount = h.failedVmaCount := by
  unfold enter
  split
  · exact ⟨rfl, rfl⟩
  · next hne =>
    rw [if_neg (hpath.resolve_left hne)]
    exact ⟨rfl, rfl⟩

theorem fields_onVmaMonitorFailed {now : Time}
    (hstay : (onVmaMonitorFailed next c h now).state = h.state) :
    (onVmaMonitorFailed next c h now).lastSeenAlive = h.lastSeenAlive ∧
      (onVmaMonitorFailed next c h now).failedVmaCount = h.failedVmaCount + 1 := by
  rw [onVmaMonitorFailed_eq] at hstay ⊢
  split
  · next hover =>
    rw [if_pos hover, state_raise] at hstay
    exact fields_enter (.inl hstay)
  · exact ⟨rfl, rfl⟩

/-- What an occurrence that is no ping does to the two fields. -/
theorem fields_occur (hping : ¬o.isPing) :
    ((occur next c h o).lastSeenAlive = h.lastSeenAlive ∧
        (occur next c h o).failedVmaCount = h.failedVmaCount) ∨
      ((occur next c h o).state ≠ h.state ∧
        lxc.methodAt (occur next c h o).state = some .startVmaMonitor) := by
  have hraise (e : Event) (now : Time) :
      ((raise next h e now).lastSeenAlive = h.lastSeenAlive ∧
          (raise next h e now).failedVmaCount = h.failedVmaCount) ∨
        ((raise next h e now).state ≠ h.state ∧
          lxc.methodAt (raise next h e now).state = some .startVmaMonitor) := by
    rw [state_raise]
    by_cases hpath : next h.state e = h.state ∨
        lxc.methodAt (next h.state e) ≠ some .startVmaMonitor
    · exact .inl (fields_enter hpath)
    · rw [not_or, not_not] at hpath
      exact .inr hpath
  cases o with
  | expired row now => exact hraise _ now
  | raised e now => exact hraise e now
  | pingOk now => exact absurd trivial hping
  | pingFailed now => exact absurd trivial hping

/-- What an occurrence that is no answer does when the handler stays in its state. -/
theorem fields_of_stay (hanswer : o.isAnswer = false)
    (hstay : (occur next c h o).state = h.state) :
    (occur next c h o).lastSeenAlive = h.lastSeenAlive ∧
      (occur next c h o).failedVmaCount = h.failedVmaCount + if o.isFailure then 1 else 0 := by
  cases o with
  | pingOk now => cases hanswer
  | pingFailed now => exact fields_onVmaMonitorFailed hstay
  | expired row now =>
    exact (fields_occur (o := .expired row now) not_false).resolve_right fun h => h.1 hstay
  | raised e now =>
    exact (fields_occur (o := .raised e now) not_false).resolve_right fun h => h.1 hstay

end Occurrences

/-! ### Whole lives -/

section Lives

variable {next : Path → Event → Path} {c : Settings} {h h' : Handler} {o : Occurrence}
  {past : Past}

theorem not_ended_monitoring : ended monitoring = false := rfl

/-- A handler that has monitored its machine as a running one still does so, or has given
the machine up. -/
def Settled (past : Past) (h : Handler) : Prop :=
  h.state ∈ lxc.leaves ∧ (HasMonitored past → h.state = monitoring ∨ ended h.state = true)

theorem edgeOk_next (hnext : Follows lxc next) (hleaf : h.state ∈ lxc.leaves) (e : Event) :
    EdgeOk h.state e (next h.state e) := by
  rw [hnext.next_eq lxc_total h.state e hleaf]
  exact edges_ok _ hleaf _ (Event.mem_all e)

/-- Only an expiration raises its event, and only an answer the event of one. -/
theorem expired_of_signal (hcan : CanOccur h o) (hsignal : signal c h o = some .onExpired) :
    ∃ row now, o = .expired row now ∧ onExpiredVm row = .onExpired := by
  cases o with
  | expired row now => exact ⟨row, now, rfl, Option.some.inj hsignal⟩
  | raised e now =>
    cases hsignal
    exact absurd (by decide) hcan
  | pingOk now => cases hsignal
  | pingFailed now =>
    simp only [signal] at hsignal
    split at hsignal
    · split at hsignal <;> cases hsignal
    · cases hsignal

theorem answer_of_signal (hcan : CanOccur h o) (hsignal : signal c h o = some .onAlive) :
    ∃ now, o = .pingOk now := by
  cases o with
  | expired row now =>
    simp only [signal, onExpiredVm] at hsignal
    split at hsignal <;> cases hsignal
  | raised e now =>
    cases hsignal
    exact absurd (by decide) hcan
  | pingOk now => exact ⟨now, rfl⟩
  | pingFailed now =>
    simp only [signal] at hsignal
    split at hsignal
    · split at hsignal <;> cases hsignal
    · cases hsignal

/-- An undisturbed handler leaves its monitoring for good. -/
theorem monitoring_occur (hnext : Follows lxc next) (hleaf : h.state ∈ lxc.leaves)
    (hcan : CanOccur h o) (hquiet : ¬Disturbs past h o) (hmon : h.state = monitoring) :
    (occur next c h o).state = monitoring ∨ ended (occur next c h o).state = true := by
  rw [state_occur]
  cases hsignal : signal c h o with
  | none => exact .inl hmon
  | some e =>
    refine ((edgeOk_next hnext hleaf e).monitored hmon).resolve_left ?_
    rintro rfl
    obtain ⟨row, now, rfl, hrow⟩ := expired_of_signal hcan hsignal
    exact hquiet ⟨hrow, hmon⟩

/-- A machine that was monitored and given up does not run again undisturbed. -/
theorem ended_occur (hnext : Follows lxc next) (hleaf : h.state ∈ lxc.leaves)
    (hcan : CanOccur h o) (hquiet : ¬Disturbs past h o) (hhas : HasMonitored past)
    (hover : ended h.state = true) : ended (occur next c h o).state = true := by
  rw [state_occur]
  cases hsignal : signal c h o with
  | none => exact hover
  | some e =>
    refine ((edgeOk_next hnext hleaf e).ended hover).resolve_left ?_
    rintro ⟨hdebug, rfl⟩
    obtain ⟨now, rfl⟩ := answer_of_signal hcan hsignal
    exact hquiet ⟨hdebug, hhas⟩

theorem settled_of_run (hnext : Follows lxc next) (run : (handler next c).Run past h)
    (hquiet : EachStep (fun past h o => ¬Disturbs past h o) past) : Settled past h := by
  induction run with
  | start hinit =>
    rw [hinit]
    exact ⟨by decide, fun ⟨_, hmem, _⟩ => absurd hmem (by simp)⟩
  | @extend past h h' o run hstep ih =>
    obtain ⟨hcan, rfl⟩ := hstep
    obtain ⟨hleaf, hpast⟩ := ih hquiet.2
    refine ⟨?_, fun hhas => ?_⟩
    · rw [state_occur]
      cases signal c h o with
      | none => exact hleaf
      | some e => exact (edgeOk_next hnext hleaf e).leaf
    · obtain ⟨e, hmem, hmon⟩ := hhas
      rcases List.mem_cons.mp hmem with rfl | hmem
      · exact monitoring_occur hnext hleaf hcan hquiet.1 hmon
      · rcases hpast ⟨e, hmem, hmon⟩ with hstate | hover
        · exact monitoring_occur hnext hleaf hcan hquiet.1 hstate
        · exact .inr (ended_occur hnext hleaf hcan hquiet.1 ⟨e, hmem, hmon⟩ hover)

theorem failures_cons (s : Handler) (o : Occurrence) (steps : Past) :
    failures ((s, o) :: steps) = failures steps + if o.isFailure then 1 else 0 :=
  List.countP_cons

theorem startOf_mem (steps : Past) (h : Handler) :
    startOf steps h = h ∨ ∃ o, (startOf steps h, o) ∈ steps := by
  induction steps generalizing h with
  | nil => exact .inl rfl
  | cons e steps ih =>
    obtain ⟨s, o⟩ := e
    rcases ih s with heq | ⟨o', hmem⟩
    · exact .inr ⟨o, by rw [startOf, heq]; exact List.mem_cons_self⟩
    · exact .inr ⟨o', List.mem_cons_of_mem _ hmem⟩

/-- An undisturbed handler keeps the time and the counter but for pings and its first
monitoring of the running machine. -/
theorem kept_occur (hnext : Follows lxc next) (hsettled : Settled past h) :
    Kept past h o (occur next c h o) := by
  intro hrunning
  by_cases hping : o.isPing
  · exact .inr (.inl hping)
  have hcases : ((occur next c h o).lastSeenAlive = h.lastSeenAlive ∧
      (occur next c h o).failedVmaCount = h.failedVmaCount) ∨
        ((occur next c h o).state ≠ h.state ∧
          lxc.methodAt (occur next c h o).state = some .startVmaMonitor) := fields_occur hping
  rcases hcases with hfields | ⟨hmoved, hstarts⟩
  · exact .inl hfields
  · obtain ⟨hleaf, hpast⟩ := hsettled
    have hmon : (occur next c h o).state = monitoring := by
      rw [state_occur] at hmoved hstarts ⊢
      cases hsignal : signal c h o with
      | none => exact absurd (by rw [hsignal]; rfl) hmoved
      | some e =>
        rw [hsignal] at hmoved hstarts
        rcases (edgeOk_next hnext hleaf e).starts hrunning with heq | hno | hmon
        · exact absurd heq hmoved
        · exact absurd hstarts hno
        · exact hmon
    refine .inr (.inr ⟨hmon, fun hhas => ?_⟩)
    rcases hpast hhas with hstate | hover
    · exact hmoved (hmon.trans hstate.symm)
    · simp [ended, hrunning] at hover

theorem eachKept_of_run (hnext : Follows lxc next) (run : (handler next c).Run past h)
    (hquiet : EachStep (fun past h o => ¬Disturbs past h o) past) : EachKept past h := by
  induction run with
  | start _ => trivial
  | @extend past h h' o run hstep ih =>
    obtain ⟨-, rfl⟩ := hstep
    exact ⟨kept_occur hnext (settled_of_run hnext run hquiet.2), ih hquiet.2⟩

/-- While the agent does not answer, a monitored handler counts the failed pings and keeps
the time. -/
theorem fields_of_silence (hnext : Follows lxc next) {steps old : Past}
    (run : (handler next c).Run (steps ++ old) h)
    (hquiet : EachStep (fun past h o => ¬Disturbs past h o) (steps ++ old))
    (hsilent : ∀ e ∈ steps, e.2.isAnswer = false) (hstart : (startOf steps h).state = monitoring)
    (hmon : h.state = monitoring) :
    h.lastSeenAlive = (startOf steps h).lastSeenAlive ∧
      h.failedVmaCount = (startOf steps h).failedVmaCount + failures steps := by
  induction steps generalizing h with
  | nil => exact ⟨rfl, rfl⟩
  | cons e steps ih =>
    obtain ⟨s, o⟩ := e
    cases run with
    | extend run hstep =>
      have hsettled := settled_of_run hnext run hquiet.2
      -- The step leads to the monitoring, so it starts there: what has ended stays so.
      have hs : s.state = monitoring := by
        rcases startOf_mem steps s with heq | ⟨o', hmem⟩
        · rw [← heq]
          exact hstart
        · have hhas : HasMonitored (steps ++ old) :=
            ⟨_, List.mem_append_left _ hmem, hstart⟩
          refine (hsettled.2 hhas).resolve_right fun hover => ?_
          have hafter := ended_occur (c := c) hnext hsettled.1 hstep.1 hquiet.1 hhas hover
          rw [← hstep.2, hmon, not_ended_monitoring] at hafter
          cases hafter
      obtain ⟨hlast, hcount⟩ := ih run hquiet.2
        (fun e he => hsilent e (List.mem_cons_of_mem _ he)) hstart hs
      obtain ⟨-, rfl⟩ := hstep
      have hfields := fields_of_stay (hsilent _ List.mem_cons_self) (hmon.trans hs.symm)
      refine ⟨hfields.1.trans hlast, hfields.2.trans ?_⟩
      rw [hcount, failures_cons, startOf, Nat.add_assoc]

theorem detects_of_run (hnext : Follows lxc next) (run : (handler next c).Run past h)
    (hquiet : EachStep (fun past h o => ¬Disturbs past h o) past) : Detects next c past h := by
  rintro steps old rfl hsilent hstart hmon now hcount htime
  obtain ⟨hlast, hfailed⟩ := fields_of_silence hnext run hquiet hsilent hstart hmon
  have hlimits : limits c h = c.onRunning := by
    rw [limits, hmon]
    rfl
  have hover : OverLimits c h now := by
    rw [OverLimits, hlimits, hfailed, hlast]
    exact ⟨hcount, Nat.lt_sub_of_add_lt (by rwa [Nat.add_comm])⟩
  have hleaf := (settled_of_run hnext run hquiet).1
  rw [state_onVmaMonitorFailed, if_pos hover, hnext.next_eq lxc_total _ _ hleaf, hmon, afterDead]
  split
  · exact next_dead.2
  · exact next_dead.1

end Lives

/-! ### Lives on record -/

/-- The life that given occurrences make, as a run keeps it. -/
def play (next : Path → Event → Path) (c : Settings) : List Occurrence → Past × Handler
  | [] => ([], { state := [.new], lastSeenAlive := 0, failedVmaCount := 0 })
  | o :: os =>
    let (past, h) := play next c os
    ((h, o) :: past, occur next c h o)

/-- Every occurrence can occur where it does. -/
def Playable (next : Path → Event → Path) (c : Settings) : List Occurrence → Prop
  | [] => True
  | o :: os => CanOccur (play next c os).2 o ∧ Playable next c os

theorem run_of_playable {next : Path → Event → Path} {c : Settings} (os : List Occurrence)
    (h : Playable next c os) : (handler next c).Run (play next c os).1 (play next c os).2 := by
  induction os with
  | nil => exact .start rfl
  | cons o os ih => exact .extend (ih h.2) ⟨h.1, rfl⟩

instance (h : Handler) (o : Occurrence) : Decidable (CanOccur h o) :=
  match o with
  | .expired _ _ => .isTrue trivial
  | .raised e _ => inferInstanceAs (Decidable (e ∉ _))
  | .pingOk _ => inferInstanceAs (Decidable (Monitored h))
  | .pingFailed _ => inferInstanceAs (Decidable (Monitored h))

instance decidablePlayable (next : Path → Event → Path) (c : Settings) :
    (os : List Occurrence) → Decidable (Playable next c os)
  | [] => .isTrue trivial
  | o :: os =>
    haveI := decidablePlayable next c os
    inferInstanceAs (Decidable (CanOccur (play next c os).2 o ∧ Playable next c os))

instance (past : Past) : Decidable (HasMonitored past) :=
  inferInstanceAs (Decidable (∃ e ∈ past, e.1.state = monitoring))

instance (past : Past) (h : Handler) (o : Occurrence) : Decidable (Disturbs past h o) :=
  match o with
  | .expired _ _ => inferInstanceAs (Decidable (_ ∧ _))
  | .raised _ _ => .isFalse not_false
  | .pingOk _ => inferInstanceAs (Decidable (_ ∧ _))
  | .pingFailed _ => .isFalse not_false

instance decidableUndisturbed :
    (past : Past) → Decidable (EachStep (fun past h o => ¬Disturbs past h o) past)
  | [] => .isTrue trivial
  | (h, o) :: past =>
    haveI := decidableUndisturbed past
    inferInstanceAs (Decidable (¬Disturbs past h o ∧
      EachStep (fun past h o => ¬Disturbs past h o) past))

/-- As long as nothing starts the monitoring of a running machine again, the time its agent
was last seen and the failures since are those of its pings, and a silent agent is found
dead within the limits. -/
theorem failure_detected (next : Path → Event → Path) (hnext : Follows lxc next) (c : Settings)
    (past : Past) (h : Handler) (run : (handler next c).Run past h)
    (hquiet : EachStep (fun past h o => ¬Disturbs past h o) past) :
    EachKept past h ∧ Detects next c past h :=
  ⟨eachKept_of_run hnext run hquiet, detects_of_run hnext run hquiet⟩

/-- The settings as they are by default. -/
def defaults : Settings where
  onStarting := { maxCount := 40, maxTime := 180 }
  onRunning := { maxCount := 10, maxTime := 320 }
  debugEnable := false

/-- A machine is started, and its agent answers one ping. -/
def started : List Occurrence :=
  List.replicate 4 (.raised .onDone 10) ++ .pingOk 10 :: List.replicate 19 (.raised .onDone 0) ++
    [.raised .onCmdStart 0]

theorem failure_detected_started :
    EachKept (play (lxc.next 3) defaults (.pingFailed 40 :: started)).1
        (play (lxc.next 3) defaults (.pingFailed 40 :: started)).2 ∧
      Detects (lxc.next 3) defaults (play (lxc.next 3) defaults (.pingFailed 40 :: started)).1
        (play (lxc.next 3) defaults (.pingFailed 40 :: started)).2 :=
  failure_detected (lxc.next 3) (follows_next lxc_total) defaults _ _
    (run_of_playable _ (by decide +kernel)) (by decide +kernel)

/-- Its agent fails nine pings from then on; then the machine's expiration is announced. -/
def announced : List Occurrence :=
  .raised .onDone 301 :: .expired { soft := some "t", hard := some "f" } 300 ::
    (List.range 9).reverse.map (fun n => .pingFailed (40 + 30 * n)) ++ started

/-- At the tenth failure the agent has not answered for too long, and the machine runs on. -/
theorem expiration_postpones :
    ∃ past h, (handler (lxc.next 3) defaults).Run past h ∧
      ¬(EachKept past h ∧ Detects (lxc.next 3) defaults past h) := by
  refine ⟨_, _, run_of_playable announced (by decide +kernel), fun ⟨_, hdetects⟩ => ?_⟩
  have hdead := hdetects _ _
    (List.take_append_drop 11 (play (lxc.next 3) defaults announced).1).symm
    (by decide +kernel) (by decide +kernel) (by decide +kernel) 340 (by decide +kernel)
    (by decide +kernel)
  revert hdead
  decide +kernel

end Qvd.VmaMonitoring
