import Qvd.AgentQuery
import Qvd.Runs
import Qvd.VmRuntimeRow

/-!
The ticker of a node and the fence it should be: its state machine, its query on the
node's row of host_runtimes, and what it reports once another node has marked the
host as lost.
-/
namespace Qvd.NodeFence

open AgentQuery Runs VmRuntimeRow

inductive TickerState
  | new
  | ticking
  | delaying
  | stopped
deriving DecidableEq, Repr

structure Ticker where
  state : TickerState
  lastTsOk : Option Time
deriving DecidableEq, Repr

/-- The columns of the node's row that its fence depends on. -/
structure HostRuntime where
  state : HostState
  okTs : Time
deriving DecidableEq, Repr

inductive Event
  | run
  | reply (now : Time) (reply : Reply Time)
  | timeout
  | hkdStop
deriving DecidableEq, Repr

/-- The callbacks given to the ticker. -/
inductive Report
  | onTicked
  | onError
deriving DecidableEq, Repr

/-- The statement of a tick: the row it leaves and the time stamps it returns. -/
def tickStatement (now : Time) (host : HostRuntime) : HostRuntime × List Time :=
  if host.state ≠ .lost then ({ host with okTs := now }, [now]) else (host, [])

/-- The statement by which another node marks the host as lost. -/
def killHosts (now timeout : Time) (host : HostRuntime) : HostRuntime :=
  if host.state ≠ .stopped ∧ host.state ≠ .starting ∧ host.state ≠ .lost ∧
      timeout < now - host.okTs then
    { host with state := .lost }
  else host

section Machine

-- the timeout of the configuration, and the value of row on an empty result
variable (timeout : Time) (emptyRow : Option Time)

/-- The first row of a result, in scalar context. -/
def row : PgResult Time → Option Time
  | .tuplesOk (ts :: _) => some ts
  | _ => emptyRow

def onTickResult (t : Ticker) (res : PgResult Time) : Ticker :=
  { t with lastTsOk := row emptyRow res }

/-- An accepted result is handed to the result method. -/
def tickResult (t : Ticker) : Reply Time → Ticker
  | .result res =>
    if queryResultCallback QueryOpts.plain res = .onResult then onTickResult emptyRow t res
    else t
  | .error => t

def tickError (t : Ticker) (now : Time) : List Report :=
  match t.lastTsOk with
  | none => []
  | some last => if timeout < now - last then [.onError] else []

def tickDone : List Report :=
  [.onTicked]

/-- The end of a tick: the reports go out before the machine leaves the state. -/
def tickReply (t : Ticker) (now : Time) (reply : Reply Time) : Ticker × List Report :=
  let t := tickResult emptyRow t reply
  match queryCallback QueryOpts.plain reply with
  | .onDone => ({ t with state := .delaying }, tickDone)
  | .onError => ({ t with state := .delaying }, tickError timeout t now)
  | .forgotten => (t, [])

/-- One event; the machine has no handler for the others in that state. -/
def handle (t : Ticker) : Event → Ticker × List Report
  | .run => if t.state = .new then ({ t with state := .ticking }, []) else (t, [])
  | .reply now reply =>
    if t.state = .ticking then tickReply timeout emptyRow t now reply else (t, [])
  | .timeout => if t.state = .delaying then ({ t with state := .ticking }, []) else (t, [])
  | .hkdStop => ({ t with state := .stopped }, [])

/-- The runs of a ticker from the state it has when its host is marked as lost. -/
def runsFrom (t₀ : Ticker) : System Ticker Event where
  init t := t = t₀
  step t e t' := t' = (handle timeout emptyRow t e).1

/-- A tick result reaches the machine. -/
def TickResult (t : Ticker) (e : Event) (now : Time) (reply : Reply Time) : Prop :=
  t.state = .ticking ∧ e = .reply now reply

/-- No event makes the ticker report a tick. -/
def SilentStep (t : Ticker) (e : Event) : Prop :=
  Report.onTicked ∉ (handle timeout emptyRow t e).2

/-- At a tick result later than the timeout after the last good tick, if there was one, an
error has been reported, then or before. -/
def ErrorInTime (lastTsOk : Option Time) (past : List (Ticker × Event)) (t : Ticker)
    (e : Event) : Prop :=
  ∀ now reply last, TickResult t e now reply → lastTsOk = some last → timeout < now - last →
    ∃ x ∈ (t, e) :: past, Report.onError ∈ (handle timeout emptyRow x.1 x.2).2

/-- The fence holds in a run: no tick is reported, and the error comes in time. -/
def Fenced (lastTsOk : Option Time) (past : List (Ticker × Event)) : Prop :=
  AllSteps (SilentStep timeout emptyRow) past ∧
    EachStep (ErrorInTime timeout emptyRow lastTsOk) past

end Machine

/-- The query of a tick fails in the database: it does not go through at all. -/
def TickFails (t : Ticker) (e : Event) : Prop :=
  ∀ now reply, TickResult t e now reply → reply.queryFailed QueryOpts.plain = true

section Fence

variable (timeout : Time) (emptyRow : Option Time)

/-- A tick result is reported as a tick exactly when its query has not failed. -/
theorem onTicked_mem_iff (t : Ticker) (now : Time) (reply : Reply Time) :
    Report.onTicked ∈ (tickReply timeout emptyRow t now reply).2 ↔
      reply.queryFailed QueryOpts.plain = false := by
  unfold tickReply
  rw [queryCallback_plain]
  by_cases h : reply.queryFailed QueryOpts.plain = true
  · have hsilent : Report.onTicked ∉
        tickError timeout (tickResult emptyRow t reply) now := by
      unfold tickError
      split
      · simp
      · split <;> simp
    simpa [h] using hsilent
  · have hdone : reply.queryFailed QueryOpts.plain = false := by simpa using h
    simp [hdone, tickDone]

/-- One step keeps silent exactly when a query it gets the reply of has failed. -/
theorem silentStep_iff (t : Ticker) (e : Event) :
    SilentStep timeout emptyRow t e ↔ TickFails t e := by
  unfold SilentStep TickFails TickResult
  cases e with
  | reply now reply =>
    by_cases ht : t.state = .ticking
    · simp only [handle, ht, if_true, onTicked_mem_iff, Bool.not_eq_false, true_and,
        Event.reply.injEq]
      constructor
      · rintro h now' reply' ⟨-, rfl⟩
        exact h
      · intro h
        exact h now reply ⟨rfl, rfl⟩
    · simp [handle, ht]
  | run =>
    by_cases ht : t.state = .new <;> simp [handle, ht]
  | timeout =>
    by_cases ht : t.state = .delaying <;> simp [handle, ht]
  | hkdStop => simp [handle]

/-- A failed query leaves the time of the last good tick. -/
theorem tickResult_of_failed (t : Ticker) (reply : Reply Time)
    (h : reply.queryFailed QueryOpts.plain = true) : tickResult emptyRow t reply = t := by
  cases reply with
  | error => rfl
  | result res =>
    have hbad : queryResultCallback QueryOpts.plain res = .bad := by
      simpa [Reply.queryFailed] using h
    simp [tickResult, hbad]

/-- The error of a failed query after the timeout. -/
theorem onError_mem_of_failed {t : Ticker} {now last : Time} {reply : Reply Time}
    (h : reply.queryFailed QueryOpts.plain = true) (hlast : t.lastTsOk = some last)
    (hlate : timeout < now - last) :
    Report.onError ∈ (tickReply timeout emptyRow t now reply).2 := by
  unfold tickReply
  rw [tickResult_of_failed emptyRow t reply h, queryCallback_plain, if_pos h]
  simp [tickError, hlast, hlate]

/-- While queries fail the time of the last good tick stays. -/
theorem lastTsOk_step {t : Ticker} {e : Event} (hfails : TickFails t e) :
    (handle timeout emptyRow t e).1.lastTsOk = t.lastTsOk := by
  cases e with
  | reply now reply =>
    by_cases ht : t.state = .ticking
    · have h := hfails now reply ⟨ht, rfl⟩
      simp only [handle, ht, if_true, tickReply]
      rw [tickResult_of_failed emptyRow t reply h, queryCallback_plain, if_pos h]
    · simp [handle, ht]
  | run =>
    by_cases ht : t.state = .new <;> simp [handle, ht]
  | timeout =>
    by_cases ht : t.state = .delaying <;> simp [handle, ht]
  | hkdStop => rfl

theorem lastTsOk_run {t₀ t : Ticker} {past : List (Ticker × Event)}
    (run : (runsFrom timeout emptyRow t₀).Run past t)
    (hfails : AllSteps TickFails past) :
    Always (fun t => t.lastTsOk = t₀.lastTsOk) past t := by
  apply run.always_of_allSteps _ _ hfails
  · rintro t rfl
    rfl
  · rintro t e t' ht he rfl
    exact (lastTsOk_step timeout emptyRow he).trans ht

/-- While queries fail every tick result after the timeout comes with the error. -/
theorem errorInTime_run {lastTsOk : Option Time} {past : List (Ticker × Event)}
    (hlast : ∀ x ∈ past, x.1.lastTsOk = lastTsOk) (hfails : AllSteps TickFails past) :
    EachStep (ErrorInTime timeout emptyRow lastTsOk) past := by
  induction past with
  | nil => trivial
  | cons x past ih =>
    obtain ⟨hx, hpast⟩ := List.forall_mem_cons.mp hlast
    obtain ⟨hxf, hpastf⟩ := List.forall_mem_cons.mp hfails
    refine ⟨?_, ih hpast hpastf⟩
    rintro now reply last ⟨hstate, he⟩ hsome hlate
    refine ⟨x, List.mem_cons_self, ?_⟩
    have h := hxf now reply ⟨hstate, he⟩
    rw [he]
    simpa [handle, hstate] using onError_mem_of_failed timeout emptyRow h
      (hx.trans hsome) hlate

/-- A node whose host has been marked as lost is fenced in a run exactly when every tick
query of the run fails in the database. -/
theorem fenced_iff_ticks_fail (t₀ t : Ticker) (past : List (Ticker × Event))
    (run : (runsFrom timeout emptyRow t₀).Run past t) :
    Fenced timeout emptyRow t₀.lastTsOk past ↔ AllSteps TickFails past := by
  constructor
  · rintro ⟨hsilent, -⟩ x hx
    exact (silentStep_iff timeout emptyRow x.1 x.2).mp (hsilent x hx)
  · intro hfails
    refine ⟨?_, ?_⟩
    · intro x hx
      exact (silentStep_iff timeout emptyRow x.1 x.2).mpr (hfails x hx)
    · exact errorInTime_run timeout emptyRow
        (lastTsOk_run timeout emptyRow run hfails).2 hfails

end Fence

section LostHost

/-- A running ticker whose last good tick was at time 100. -/
def tickerAt100 : Ticker :=
  { state := .ticking, lastTsOk := some 100 }

/-- The database fails at every later tick, and the error comes after 450 seconds. -/
theorem fenced_when_database_fails :
    Fenced 450 none (some 100) [(tickerAt100, .reply 600 .error)] := by
  have run : (runsFrom 450 none tickerAt100).Run [(tickerAt100, .reply 600 .error)] _ :=
    System.Run.extend (System.Run.start rfl) rfl
  refine (fenced_iff_ticks_fail 450 none tickerAt100 _ _ run).mpr ?_
  rintro x hx now reply ⟨-, he⟩
  obtain rfl := List.mem_singleton.mp hx
  cases he
  rfl

/-- A statement on the row of a lost host returns nothing and still ends as a tick. -/
theorem tick_of_lost_host (timeout : Time) (emptyRow : Option Time) (t : Ticker)
    (host : HostRuntime) (now : Time) (hlost : host.state = .lost) (ht : t.state = .ticking) :
    Report.onTicked ∈ (handle timeout emptyRow t
      (.reply now (Reply.returning (tickStatement now host).2))).2 := by
  simp only [handle, ht, if_true, onTicked_mem_iff]
  simp [tickStatement, hlost, Reply.returning, Reply.queryFailed,
    queryResultCallback_plain_tuples]

/-- Another node has marked the host as lost; its next tick changes no row and is
reported as a tick. -/
theorem lost_host_ticks : ∃ past t, (runsFrom 450 none tickerAt100).Run past t ∧
    past = [(tickerAt100, .reply 600 (Reply.returning
      (tickStatement 600 (killHosts 590 450 ⟨.running, 100⟩)).2))] ∧
    (killHosts 590 450 ⟨.running, 100⟩).state = .lost ∧ ¬ Fenced 450 none (some 100) past := by
  refine ⟨_, _, System.Run.extend (System.Run.start rfl) rfl, rfl, by decide, ?_⟩
  rintro ⟨hsilent, -⟩
  exact absurd (hsilent _ List.mem_cons_self) (by unfold SilentStep; decide)

end LostHost

end Qvd.NodeFence
