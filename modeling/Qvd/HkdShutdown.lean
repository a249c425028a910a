import Mathlib.Data.List.Perm.Basic
import Qvd.HkdTable
import Qvd.Runs

/-!
The HKD from its start to its end, one call at a time. What the daemon calls may call it back
before it returns, so a state has the calls that are not finished, the innermost first; the event
loop goes on only when there are none. The handlers of machines are made by the handler of
commands and from the rows of machines that a former daemon left behind, and the states after
`stopping_all_vms` are for a daemon that has none.
-/
namespace Qvd.HkdShutdown

open StateTable HkdTable Runs

/-! ### The daemon -/

section Model

/-- The commands for a machine. -/
inductive VmCmd
  | start | stop | catchZombie
deriving DecidableEq, Repr

/-- What the handler of a machine is called with, or an event of its own. -/
inductive VmCall
  | cmd (cmd : VmCmd) | hkdStop | hkdKill | own
deriving DecidableEq, Repr

/-- The methods that go through a table with `_hash_apply_method`. -/
inductive Walk
  | stopAllL7rs | stopAllVms | killAllVms
deriving DecidableEq, Repr

/-- The agents that are stopped in the end. -/
inductive AgentName
  | commandHandler | dhcpdHandler | vhciHandler | ticker | l7rKiller | expirationMonitor
  | clusterMonitor | hypervisor
deriving DecidableEq, Repr

/-- `@agent_names`. -/
def agentNames : List AgentName :=
  [.commandHandler, .dhcpdHandler, .vhciHandler, .ticker, .l7rKiller, .expirationMonitor,
    .clusterMonitor, .hypervisor]

/-- A call that is not finished. -/
inductive Frame
  /-- the method of a state that has been entered, before it begins -/
  | enter (m : Method)
  | walk (w : Walk) (keys : List ℕ) (count : ℕ)
  | vm (call : VmCall)
  | l7r
  | l7rListener
  | agent
  /-- the loop of `_catch_zombie_vms` -/
  | zombies (rows : List ℕ)
  /-- the loop of `_send_cmds` -/
  | commands (cmd : VmCmd) (rows : List ℕ)
  /-- the loop of `_stop_all_agents` -/
  | agents (names : List AgentName)
deriving DecidableEq, Repr

/-- Whether a call has called something else. -/
def Frame.calling : Frame → Bool
  | .enter _ => false
  | .walk _ _ 0 => false
  | _ => true

def Frame.sends : Frame → Bool
  | .commands _ _ => true
  | _ => false

/-- What `_call_after` is to call. -/
inductive Later
  | acquireFlock | onStateTimeout | killAllVms
deriving DecidableEq, Repr

/-- The handler of commands with its watchers and the events it delays. -/
structure CommandHandler where
  path : Commands.Path
  query : Bool := false
  timer : Bool := false
  delayed : List Commands.Event := []
deriving DecidableEq, Repr

/-- The HKD. The tables of its handlers are the keys they have. -/
structure Hkd where
  path : Path := [.new]
  vms : List ℕ := []
  l7rs : List ℕ := []
  /-- how many handlers of machines have been made -/
  made : ℕ := 0
  agents : List AgentName := []
  l7rListener : Bool := false
  commandHandler : Option CommandHandler := none
  zombieVms : List ℕ := []
  queryWatcher : Bool := false
  callAfterWatcher : Option Later := none
  /-- the command of `init_backend` -/
  cmdWatcher : Bool := false
  /-- its failure when it could not be forked; nothing takes that back -/
  postponed : Bool := false
  delayedStop : Bool := false
  stack : List Frame := []
deriving DecidableEq, Repr

structure Config where
  useDhcp : Bool
  useVhciHubs : Bool

variable (next : Path → Event → Path)
  (commandNext : Commands.Path → Commands.Event → Commands.Path) (cfg : Config)

namespace Hkd

variable (s : Hkd)

def push (f : Frame) : Hkd := { s with stack := f :: s.stack }

def delays (path : Path) (e : Event) : Bool :=
  (hkd.declared path e).any fun declared => declared.2 matches .delay

/-- Leaving a state drops its watchers; a command goes on but is forgotten. -/
def arrive (path : Path) : Hkd :=
  { s with
    path := path
    queryWatcher := false
    callAfterWatcher := none
    cmdWatcher := false
    stack := (hkd.methodAt path).toList.map Frame.enter ++ s.stack }

/-- An event. Of those that are delayed only `_on_cmd_stop` is one. -/
def fire (e : Event) : Hkd :=
  if next s.path e = s.path then { s with delayedStop := s.delayedStop || delays s.path e }
  else s.arrive (next s.path e)

/-! #### The handlers -/

/-- `_new_vm_handler` -/
def newVmHandler (id : ℕ) : Hkd := { s with vms := s.vms.insert id, made := s.made + 1 }

/-- `_on_vm_cmd`. Outside running a start becomes a stop. -/
def onVmCmd (id : ℕ) (cmd : VmCmd) : Hkd :=
  if id ∈ s.vms then
    if cmd = .start then s else s.push (.vm (.cmd cmd))
  else if cmd = .start then
    (s.newVmHandler id).push (.vm (.cmd (if s.path.head? = some .running then .start else .stop)))
  else s

def onVmStopped (id : ℕ) : Hkd :=
  let s := { s with vms := s.vms.filter (· ≠ id) }
  if s.vms = [] then s.fire next .onNoVmsAreRunning else s

def onL7rStopped (pid : ℕ) : Hkd :=
  let s := { s with l7rs := s.l7rs.filter (· ≠ pid) }
  if s.l7rs = [] then s.fire next .onNoL7rsAreRunning else s

def checkAllAgentsHaveStopped : Hkd :=
  if s.agents = [] then s.fire next .onAllAgentsStopped else s

def onAgentStopped (name : AgentName) : Hkd :=
  { s with agents := s.agents.filter (· ≠ name) }.checkAllAgentsHaveStopped next

end Hkd

namespace Walk

def table (s : Hkd) : Walk → List ℕ
  | .stopAllL7rs => s.l7rs
  | .stopAllVms | .killAllVms => s.vms

/-- What is called on each entry. -/
def frame : Walk → Frame
  | .stopAllL7rs => .l7r
  | .stopAllVms => .vm .hkdStop
  | .killAllVms => .vm .hkdKill

/-- The event when there was no entry. -/
def noneRunning : Walk → Event
  | .stopAllL7rs => .onNoL7rsAreRunning
  | .stopAllVms | .killAllVms => .onNoVmsAreRunning

/-- What is called later when there was one. -/
def later : Walk → Later
  | .stopAllL7rs | .stopAllVms => .onStateTimeout
  | .killAllVms => .killAllVms

end Walk

/-! #### The handler of commands -/

namespace CommandHandler

variable (h : CommandHandler)

def arrive (path : Commands.Path) : CommandHandler :=
  { h with
    path := path
    query := decide (Commands.table.methodAt path ∈ [some .loadStopCmds, some .loadStartCmds])
    timer := decide (Commands.table.methodAt path = some .setTimer) }

def delay (e : Commands.Event) : CommandHandler :=
  if (Commands.table.declared h.path e).any fun declared => declared.2 matches .delay then
    { h with delayed := h.delayed ++ [e] }
  else h

end CommandHandler

namespace Hkd

variable (s : Hkd)

/-- An event of the handler of commands, which tells the HKD that it has stopped. -/
def commandFire (h : CommandHandler) (e : Commands.Event) : Hkd :=
  if commandNext h.path e = h.path then { s with commandHandler := some (h.delay e) }
  else
    let s := { s with commandHandler := some (h.arrive (commandNext h.path e)) }
    if Commands.table.methodAt (commandNext h.path e) = some .onStopped then
      s.fire next .onVmCommandHandlerStopped
    else s

/-- The walk begins; the keys come in any order. -/
def startWalk (w : Walk) (keys : List ℕ) : Option Hkd :=
  if keys.Perm (w.table s) then some (s.push (.walk w keys 0)) else none

end Hkd

/-! #### The methods of the states -/

/-- What is left open of a step. -/
inductive Choice
  /-- how a check, a lock or a command turns out -/
  | done | error | waits | postponed
  | keys (keys : List ℕ)
  /-- what an agent reports before it returns -/
  | stopped (id : ℕ) | agentStopped (name : AgentName)
  | goOn
deriving DecidableEq, Repr

namespace Hkd

variable (s : Hkd)

/-- The agents `_start_agents` starts. -/
def startedAgents : List AgentName :=
  [.commandHandler, .expirationMonitor, .l7rKiller, .clusterMonitor] ++
    (if cfg.useDhcp then [.dhcpdHandler] else []) ++
      if cfg.useVhciHubs then [.vhciHandler] else []

/-- `__acquire_flock` -/
def acquireFlock : Choice → Option Hkd
  | .done => some (s.fire next .onDone)
  | .error => some (s.fire next .onError)
  | .waits => some { s with callAfterWatcher := some .acquireFlock }
  | _ => none

def check : Choice → Option Hkd
  | .done => some (s.fire next .onDone)
  | .error => some (s.fire next .onError)
  | _ => none

/-- `_prepare_storage` with the command of `init_backend`. -/
def prepareStorage : Choice → Option Hkd
  | .waits => some { s with cmdWatcher := true }
  | .postponed => some { s with postponed := true }
  | c => s.check next c

def stopVmCommandHandler : Hkd :=
  match s.commandHandler with
  | none => s.fire next .onDone
  | some h => s.commandFire next commandNext h .onHkdStop

/-- The method of a state. -/
def begin (m : Method) (c : Choice) : Option Hkd :=
  match m with
  | .acquireHkdLock | .acquireVmLock => s.acquireFlock next c
  | .checkNetPorts | .checkAddress | .checkBridgeFw | .setFwRules => s.check next c
  | .prepareStorage => s.prepareStorage next c
  | .startDb | .setProcessLimits | .removeFwRules => some (s.fire next .onDone)
  | .checkDbVersion | .loadHostRow | .saveState | .saveLoadbalData | .cleanupZombieL7rs
  | .searchZombieVms => some { s with queryWatcher := true }
  | .startConfig | .sayGoodbye => some s
  | .startHypervisor =>
    some ({ s with agents := s.agents.insert .hypervisor }.fire next .onDone)
  | .startTicker => some { s with agents := s.agents.insert .ticker }
  | .catchZombieVms =>
    if s.zombieVms = [] then some (s.fire next .onDone)
    else some ({ s with zombieVms := [] }.push (.zombies s.zombieVms))
  | .startAgents =>
    some ({ s with agents := s.agents.union (startedAgents cfg) }.fire next .onDone)
  | .startLaterAgents =>
    some ({ s with
      commandHandler := some (CommandHandler.arrive { path := [.new] } (commandNext [.new] .onRun))
      l7rListener := true }.fire next .onDone)
  | .stopL7rListener =>
    if s.l7rListener then some (s.push .l7rListener) else some (s.fire next .onDone)
  | .stopVmCommandHandler => some (s.stopVmCommandHandler next commandNext)
  | .stopAllL7rs | .stopAllVms | .killAllVms =>
    match c with
    | .keys keys => s.startWalk (match m with
        | .stopAllL7rs => .stopAllL7rs
        | .stopAllVms => .stopAllVms
        | _ => .killAllVms) keys
    | _ => none
  | .stopAllAgents =>
    if s.agents = [] then some (s.checkAllAgentsHaveStopped next)
    else some (s.push (.agents agentNames))

/-! #### One step of a call -/

/-- One step of the innermost call, which is taken off the stack before it. -/
def step (f : Frame) (c : Choice) : Option Hkd :=
  match f with
  | .enter m => s.begin next commandNext cfg m c
  | .walk w [] 0 => some (s.fire next w.noneRunning)
  | .walk w [] (_ + 1) => some { s with callAfterWatcher := some w.later }
  | .walk w (key :: keys) count =>
    if key ∈ w.table s then some ((s.push (.walk w keys (count + 1))).push w.frame)
    else some (s.push (.walk w keys count))
  | .vm call =>
    match c with
    | .stopped id => some ((s.push (.vm call)).onVmStopped next id)
    | .goOn => some s
    | _ => none
  | .l7r =>
    match c with
    | .stopped pid => some ((s.push .l7r).onL7rStopped next pid)
    | .goOn => some s
    | _ => none
  | .l7rListener =>
    match c with
    | .stopped _ => some ((s.push .l7rListener).fire next .onL7rListenerStopped)
    | .goOn => some s
    | _ => none
  | .agent =>
    match c with
    | .agentStopped name => some ((s.push .agent).onAgentStopped next name)
    | .goOn => some s
    | _ => none
  | .zombies [] => some s
  | .zombies (id :: rows) =>
    some (((s.newVmHandler id).push (.zombies rows)).push (.vm (.cmd .catchZombie)))
  | .commands _ [] =>
    s.commandHandler.map fun h => s.commandFire next commandNext h .onDone
  | .commands cmd (id :: rows) => some ((s.push (.commands cmd rows)).onVmCmd id cmd)
  | .agents [] => some s
  | .agents (name :: names) =>
    if name ∈ s.agents then some ((s.push (.agents names)).push .agent)
    else some (s.push (.agents names))

end Hkd

/-! #### The event loop -/

/-- What the event loop can call. -/
inductive Occurrence
  | run
  /-- a signal or a command for the daemon, the connection to the database, the ticker, the
  configuration, the listener of the L7R -/
  | event (e : Event)
  | query (failed : Bool) (rows : List ℕ)
  | callAfter (c : Choice)
  | cmd (failed : Bool)
  | postponed
  | vm | l7r | agent
  | l7rConnection (pid : ℕ)
  | commandTimer | commandNotify
  | commandQuery (rows : Option (List ℕ))
deriving DecidableEq, Repr

inductive Label
  | occur (o : Occurrence)
  | call (c : Choice)
  /-- a delayed event is taken up again -/
  | resume | resumeCommand
  /-- an exception ends some calls -/
  | die (calls : ℕ)
deriving DecidableEq, Repr

/-- The events that come from outside. -/
def outerEvents : List Event :=
  [.onCmdStop, .onDeadDb, .onTickerError, .onDbTicked, .onTransientDbError, .onConfigReloadDone,
    .onL7rListenerStopped]

namespace Hkd

variable (s : Hkd)

def fireResult (failed : Bool) : Hkd := s.fire next (if failed then .onError else .onDone)

/-- The result of the handler's query: the commands are sent, or it is idle again. -/
def commandQuery (h : CommandHandler) (rows : Option (List ℕ)) : Hkd :=
  let h' := { h with query := false }
  let stops := Commands.table.methodAt h.path = some Commands.Method.loadStopCmds
  match rows with
  | none => s.commandFire next commandNext h' .onError
  | some rows =>
    { s with commandHandler := some h' }.push (.commands (if stops then .stop else .start) rows)

def occur (o : Occurrence) : Option Hkd :=
  match o with
  | .run => if s.path = [.new] then some (s.fire next .onRun) else none
  | .event e => if e ∈ outerEvents then some (s.fire next e) else none
  | .query failed rows =>
    if s.queryWatcher then
      let found := hkd.methodAt s.path = some Method.searchZombieVms ∧ failed = false
      let zombieVms := if found then rows else s.zombieVms
      some ({ s with queryWatcher := false, zombieVms := zombieVms }.fireResult next failed)
    else none
  | .callAfter c =>
    let rest := { s with callAfterWatcher := none }
    match s.callAfterWatcher, c with
    | some .acquireFlock, c => rest.acquireFlock next c
    | some .onStateTimeout, _ => some (rest.fire next .onStateTimeout)
    | some .killAllVms, .keys keys => rest.startWalk .killAllVms keys
    | _, _ => none
  | .cmd failed =>
    if s.cmdWatcher then some ({ s with cmdWatcher := false }.fireResult next failed) else none
  | .postponed =>
    if s.postponed then some ({ s with postponed := false }.fire next .onError) else none
  | .vm => some (s.push (.vm .own))
  | .l7r => some (s.push .l7r)
  | .agent => some (s.push .agent)
  | .l7rConnection pid => some { s with l7rs := s.l7rs.insert pid }
  | .commandTimer => s.commandHandler.bind fun h =>
      if h.timer then
        some (s.commandFire next commandNext { h with timer := false } .onTimeout)
      else none
  | .commandNotify =>
    s.commandHandler.map fun h => s.commandFire next commandNext h .onQvdCmdForVmNotify
  | .commandQuery rows => s.commandHandler.bind fun h =>
      if h.query then some (s.commandQuery next commandNext h rows) else none

/-- Delayed events are taken up again at some time when no method is about to begin; as long as
the state is the same they are only delayed once more. -/
def perform : Label → Option Hkd
  | .occur o =>
    if s.stack = [] ∧ (s.path = [.new] → o = .run) then s.occur next commandNext o else none
  | .call c =>
    match s.stack with
    | [] => none
    | f :: rest => { s with stack := rest }.step next commandNext cfg f c
  | .resume =>
    if s.delayedStop ∧ s.stack.head?.all Frame.calling then
      some ({ s with delayedStop := false }.fire next .onCmdStop)
    else none
  | .resumeCommand =>
    if s.stack.head?.all Frame.calling then
      s.commandHandler.bind fun h =>
        match h.delayed with
        | [] => none
        | e :: delayed => some (s.commandFire next commandNext { h with delayed := delayed } e)
    else none
  | .die calls => if s.stack = [] then none else some { s with stack := s.stack.drop (calls + 1) }

end Hkd

/-- The runs of a daemon. -/
def hkdRuns : System Hkd Label where
  init s := s = {}
  step s l s' := s.perform next commandNext cfg l = some s'

end Model

/-! ### What holds between the calls -/

section Invariant

/-- No command for a machine will come any more. -/
def CommandsDone (handler : Option CommandHandler) : Prop :=
  ∀ c, handler = some c → c.path = [.stopped]

/-- The watchers of the handler of commands belong to its state. -/
structure HandlerOk (c : CommandHandler) : Prop where
  leaf : c.path ∈ Commands.table.leaves
  query : c.query = true → c.path ∈ Commands.loading
  timer : c.timer = true → c.path = [.idle]
  delayed : ∀ e ∈ c.delayed, e ≠ .onDone ∧ e ≠ .onError

/-- What the state says about the tables of handlers. -/
structure Order (path : Path) (vms : List ℕ) (handler : Option CommandHandler) : Prop where
  leaf : path ∈ hkd.leaves
  early : Early path → vms = []
  absent : place path ≤ place runningAgents → handler = none
  past : Past path → CommandsDone handler
  late : Late path → vms = []
  handler : ∀ c, handler = some c → HandlerOk c

/-- Where handlers of machines are made. -/
def FrameOk (path : Path) (handler : Option CommandHandler) : Frame → Prop
  | .zombies _ => Catching path
  | .commands _ _ => ∃ c, handler = some c ∧ c.path ∈ Commands.loading
  | _ => True

/-- The innermost call. A walk that has found nothing yet has all keys before it. -/
def TopOk (path : Path) (vms : List ℕ) : Frame → Prop
  | .enter m => hkd.methodAt path = some m
  | .walk w keys 0 => w ≠ .stopAllL7rs → ∀ id ∈ vms, id ∈ keys
  | _ => True

structure Calls (path : Path) (vms : List ℕ) (handler : Option CommandHandler)
    (stack : List Frame) : Prop where
  frames : ∀ f ∈ stack, FrameOk path handler f
  top : ∀ f ∈ stack.head?, TopOk path vms f
  settled : ∀ f ∈ stack.tail, f.calling = true
  sending : stack.countP Frame.sends ≤ 1

/-- The methods that end with the result of a query. -/
def queryMethods : List (Option Method) :=
  [some .checkDbVersion, some .loadHostRow, some .saveState, some .saveLoadbalData,
    some .cleanupZombieL7rs, some .searchZombieVms]

/-- What the daemon waits for belongs to its state, but for a failure that is postponed. -/
structure Watchers (s : Hkd) : Prop where
  query : s.queryWatcher = true → hkd.methodAt s.path ∈ queryMethods
  flock : s.callAfterWatcher = some .acquireFlock →
    hkd.methodAt s.path ∈ [some Method.acquireHkdLock, some .acquireVmLock]
  cmd : s.cmdWatcher = true → s.path = preparingStorage ∧ s.postponed = false
  postponed : s.postponed = true → s.vms = [] ∧ s.commandHandler = none ∧
    (s.path = preparingStorage ∨ Stopping s.path)
  waiting : s.path = preparingStorage → s.cmdWatcher = true ∨ s.postponed = true →
    ∀ m, .enter m ∉ s.stack
  delayed : s.delayedStop = true → place runningSavingState ≤ place s.path

structure Inv (s : Hkd) : Prop where
  order : Order s.path s.vms s.commandHandler
  calls : Calls s.path s.vms s.commandHandler s.stack
  watchers : Watchers s

def AllSettled (s : Hkd) : Prop := ∀ f ∈ s.stack, f.calling = true

variable {s : Hkd}

theorem topOk_of_calling {path : Path} {vms : List ℕ} {f : Frame} (h : f.calling = true) :
    TopOk path vms f := by
  cases f with
  | enter m => cases h
  | walk w keys count =>
    cases count with
    | zero => cases h
    | succ count => trivial
  | _ => trivial

theorem calls_of_settled {path : Path} {vms : List ℕ} {handler : Option CommandHandler}
    {stack : List Frame} (hframes : ∀ f ∈ stack, FrameOk path handler f)
    (h : ∀ f ∈ stack, f.calling = true) (hsending : stack.countP Frame.sends ≤ 1) :
    Calls path vms handler stack where
  frames := hframes
  top f hf := topOk_of_calling (h f (List.mem_of_mem_head? hf))
  settled f hf := h f (List.mem_of_mem_tail hf)
  sending := hsending

/-- A call on top of those that have called. -/
theorem calls_cons {path : Path} {vms : List ℕ} {handler : Option CommandHandler} {f : Frame}
    {stack : List Frame} (hframe : FrameOk path handler f) (htop : TopOk path vms f)
    (hframes : ∀ f ∈ stack, FrameOk path handler f) (h : ∀ f ∈ stack, f.calling = true)
    (hsending : (f :: stack).countP Frame.sends ≤ 1) : Calls path vms handler (f :: stack) where
  frames := List.forall_mem_cons.mpr ⟨hframe, hframes⟩
  top g hg := by
    obtain rfl : f = g := Option.some.inj hg
    exact htop
  settled := h
  sending := hsending

/-- Calls that have ended, with those below them left. -/
theorem Inv.drop (h : Inv s) {stack : List Frame} (hsub : stack.Sublist s.stack.tail) :
    Inv { s with stack := stack } ∧ AllSettled { s with stack := stack } := by
  have hmem : ∀ f ∈ stack, f ∈ s.stack := fun f hf => List.mem_of_mem_tail (hsub.subset hf)
  have hsettled : ∀ f ∈ stack, f.calling = true := fun f hf =>
    h.calls.settled f (hsub.subset hf)
  have hsending : stack.countP Frame.sends ≤ 1 :=
    ((hsub.trans (List.tail_sublist _)).countP_le).trans h.calls.sending
  have hcalls : Calls s.path s.vms s.commandHandler stack :=
    calls_of_settled (fun f hf => h.calls.frames f (hmem f hf)) hsettled hsending
  refine ⟨⟨h.order, hcalls, ?_⟩, hsettled⟩
  exact
    { query := h.watchers.query
      flock := h.watchers.flock
      cmd := h.watchers.cmd
      postponed := h.watchers.postponed
      waiting := fun hpath hwaits m hm => h.watchers.waiting hpath hwaits m (hmem _ hm)
      delayed := h.watchers.delayed }

/-- A call that is made; commands are sent only when no others are. -/
theorem Inv.push (h : Inv s) (hsettled : AllSettled s) {f : Frame}
    (hframe : FrameOk s.path s.commandHandler f) (htop : TopOk s.path s.vms f)
    (hm : ∀ m, f ≠ .enter m) (hsends : f.sends = true → s.stack.countP Frame.sends = 0) :
    Inv (s.push f) := by
  have hsending : (f :: s.stack).countP Frame.sends ≤ 1 := by
    by_cases hf : f.sends = true
    · rw [List.countP_cons_of_pos hf, hsends hf]
    · rw [List.countP_cons_of_neg hf]
      exact h.calls.sending
  refine ⟨h.order, calls_cons hframe htop h.calls.frames hsettled hsending, ?_⟩
  exact
    { query := h.watchers.query
      flock := h.watchers.flock
      cmd := h.watchers.cmd
      postponed := h.watchers.postponed
      waiting := fun hpath hwaits m hmem => (List.mem_cons.mp hmem).elim
        (fun heq => hm m heq.symm) (h.watchers.waiting hpath hwaits m)
      delayed := h.watchers.delayed }

theorem AllSettled.push (h : AllSettled s) {f : Frame} (hf : f.calling = true) :
    AllSettled (s.push f) :=
  List.forall_mem_cons.mpr ⟨hf, h⟩

/-- Agents that run, and what else is not part of the invariant. -/
theorem Inv.congr {t : Hkd} (h : Inv s)
    (hsame : (t.path, t.vms, t.commandHandler, t.stack, t.queryWatcher, t.callAfterWatcher,
      t.cmdWatcher, t.postponed, t.delayedStop) = (s.path, s.vms, s.commandHandler, s.stack,
        s.queryWatcher, s.callAfterWatcher, s.cmdWatcher, s.postponed, s.delayedStop)) :
    Inv t := by
  cases s
  cases t
  simp only [Prod.mk.injEq] at hsame
  obtain ⟨rfl, rfl, rfl, rfl, rfl, rfl, rfl, rfl, rfl⟩ := hsame
  refine ⟨h.order, h.calls, ?_⟩
  exact
    { query := h.watchers.query
      flock := h.watchers.flock
      cmd := h.watchers.cmd
      postponed := h.watchers.postponed
      waiting := h.watchers.waiting
      delayed := h.watchers.delayed }

end Invariant

/-! ### What an event keeps -/

section Fire

variable {next : Path → Event → Path} (hnext : Follows hkd next) {s : Hkd}

/-- What has to hold for an event to be harmless. -/
structure Harmless (next : Path → Event → Path) (s : Hkd) (e : Event) : Prop where
  late : s.path ∈ [stoppingAllVms, killingAllVms] →
    e ∈ [Event.onDone, .onError, .onNoVmsAreRunning] → s.vms = []
  past : s.path = stoppingVmCommandHandler →
    e ∈ [Event.onDone, .onError, .onVmCommandHandlerStopped] → CommandsDone s.commandHandler
  catching : (∃ rows, .zombies rows ∈ s.stack) → next s.path e = s.path ∨ e ∈ innerEvents ∨
    (e = .onDone ∧ s.path ≠ runningSavingState)
  storage : s.postponed = true → s.path = preparingStorage → e ≠ .onDone
  new : e = .onCmdStop → s.path ≠ [.new]

include hnext

theorem edge_ok {p : Path} (hp : p ∈ hkd.leaves) (e : Event) (hmoves : next p e ≠ p) :
    next p e ∈ hkd.leaves ∧ EdgeOk p e (next p e) := by
  rw [hnext.next_eq hkd_total p e hp] at hmoves ⊢
  exact ⟨hkd_wellFormed.next_mem 3 hp e,
    (edges_ok p hp e (Event.mem_all e)).resolve_left hmoves⟩

omit hnext in
theorem Order.arrive {p q : Path} {vms : List ℕ} {handler : Option CommandHandler} {e : Event}
    (h : Order p vms handler) (hleaf : q ∈ hkd.leaves) (hedge : EdgeOk p e q)
    (hlate : p ∈ [stoppingAllVms, killingAllVms] →
      e ∈ [Event.onDone, .onError, .onNoVmsAreRunning] → vms = [])
    (hpast : p = stoppingVmCommandHandler →
      e ∈ [Event.onDone, .onError, .onVmCommandHandlerStopped] → CommandsDone handler) :
    Order q vms handler where
  leaf := hleaf
  early hearly := h.early (lt_of_le_of_lt hedge.forward hearly)
  absent hbefore := h.absent (hedge.forward.trans hbefore)
  past hq := by
    rcases hedge.past hq with hp | hearly | ⟨hp, he⟩
    · exact h.past hp
    · intro c hc
      obtain ⟨-, hplace, hplace', -⟩ := places
      rw [h.absent (hearly.trans (hplace.trans hplace')).le] at hc
      cases hc
    · exact hpast hp he
  late hq := by
    rcases hedge.late hq with hp | hearly | ⟨hp, he⟩
    · exact h.late hp
    · exact h.early hearly
    · exact hlate hp he
  handler := h.handler

theorem Inv.fire (h : Inv s) (hsettled : AllSettled s) {e : Event} (hok : Harmless next s e) :
    Inv (s.fire next e) := by
  unfold Hkd.fire
  by_cases hsame : next s.path e = s.path
  · rw [if_pos hsame]
    refine ⟨h.order, h.calls, ?_⟩
    exact
      { query := h.watchers.query
        flock := h.watchers.flock
        cmd := h.watchers.cmd
        postponed := h.watchers.postponed
        waiting := h.watchers.waiting
        delayed := fun hdelayed => by
          rcases (Bool.or_eq_true _ _).mp hdelayed with hold | hdelays
          · exact h.watchers.delayed hold
          · obtain ⟨he, hplace⟩ :=
              delayed_stop s.path h.order.leaf e (Event.mem_all e) hdelays
            exact hplace.resolve_left (hok.new he) }
  · rw [if_neg hsame]
    obtain ⟨hleaf, hedge⟩ := edge_ok hnext h.order.leaf e hsame
    have hstorage : s.postponed = true → Stopping (next s.path e) := by
      intro hpostponed
      rcases (h.watchers.postponed hpostponed).2.2 with hpath | hstopping
      · exact hedge.storage hpath (hok.storage hpostponed hpath)
      · exact hstopping.trans hedge.forward
    have hframes : ∀ f ∈ s.stack, FrameOk (next s.path e) s.commandHandler f := by
      intro f hf
      have hframe := h.calls.frames f hf
      cases f with
      | zombies rows =>
        have he := (hok.catching ⟨rows, hf⟩).resolve_left hsame
        exact hedge.catching hframe he
      | commands cmd rows => exact hframe
      | _ => trivial
    refine ⟨h.order.arrive hleaf hedge hok.late hok.past, ?_, ?_⟩
    · show Calls _ _ _ ((hkd.methodAt (next s.path e)).toList.map Frame.enter ++ s.stack)
      cases hm : hkd.methodAt (next s.path e) with
      | none => exact calls_of_settled hframes hsettled h.calls.sending
      | some m => exact calls_cons trivial hm hframes hsettled h.calls.sending
    · exact
        { query := fun hquery => nomatch hquery
          flock := fun hflock => nomatch hflock
          cmd := fun hcmd => nomatch hcmd
          postponed := fun hpostponed => by
            obtain ⟨hvms, hhandler, -⟩ := h.watchers.postponed hpostponed
            exact ⟨hvms, hhandler, .inr (hstorage hpostponed)⟩
          waiting := fun hpath hwaits => by
            rcases hwaits with hcmd | hpostponed
            · cases hcmd
            · have hplace := hstorage hpostponed
              rw [show next s.path e = preparingStorage from hpath] at hplace
              unfold Stopping at hplace
              obtain ⟨h1, h2, h3, h4, -⟩ := places
              omega
          delayed := fun hdelayed => (h.watchers.delayed hdelayed).trans hedge.forward }

omit hnext in
theorem harmless_inner {e : Event} (he : e ∈ innerEvents)
    (hvms : e = .onNoVmsAreRunning → s.vms = [])
    (hdone : e = .onVmCommandHandlerStopped → CommandsDone s.commandHandler) :
    Harmless next s e where
  late _ hmem := hvms (by revert he hmem; cases e <;> decide)
  past _ hmem := hdone (by revert he hmem; cases e <;> decide)
  catching _ := .inr (.inl he)
  storage _ _ := by
    rintro rfl
    revert he
    decide
  new := by
    rintro rfl
    exact absurd he (by decide)

/-! #### The handler of commands -/

variable {commandNext : Commands.Path → Commands.Event → Commands.Path}
  (hcommands : Follows Commands.table commandNext)

omit hnext in
/-- Another handler of commands in the same state. -/
theorem Inv.setHandler (h : Inv s) {c c' : CommandHandler} (hc : s.commandHandler = some c)
    (hok : HandlerOk c') (hpast : Past s.path → c'.path = [.stopped])
    (hsending : (∃ cmd rows, .commands cmd rows ∈ s.stack) → c'.path ∈ Commands.loading) :
    Inv { s with commandHandler := some c' } := by
  have hplace : ¬place s.path ≤ place runningAgents := by
    intro hbefore
    rw [h.order.absent hbefore] at hc
    cases hc
  refine ⟨?_, ⟨fun f hf => ?_, h.calls.top, h.calls.settled, h.calls.sending⟩, ?_⟩
  · exact
      { leaf := h.order.leaf
        early := h.order.early
        absent := fun hbefore => absurd hbefore hplace
        past := fun hp other hother => Option.some.inj hother ▸ hpast hp
        late := h.order.late
        handler := fun other hother => Option.some.inj hother ▸ hok }
  · have hframe := h.calls.frames f hf
    cases f with
    | commands cmd rows => exact ⟨c', rfl, hsending ⟨cmd, rows, hf⟩⟩
    | zombies rows => exact hframe
    | _ => trivial
  · exact
      { query := h.watchers.query
        flock := h.watchers.flock
        cmd := h.watchers.cmd
        postponed := fun hpostponed => by
          have hnone := (h.watchers.postponed hpostponed).2.1
          rw [hc] at hnone
          cases hnone
        waiting := h.watchers.waiting
        delayed := h.watchers.delayed }

include hcommands

omit hnext in
theorem handlerOk_arrive {c : CommandHandler} (hc : HandlerOk c) (e : Commands.Event) :
    HandlerOk (c.arrive (commandNext c.path e)) := by
  have hleaf : commandNext c.path e ∈ Commands.table.leaves := by
    rw [hcommands.next_eq Commands.total c.path e hc.leaf]
    exact Commands.wellFormed.next_mem 2 hc.leaf e
  obtain ⟨hquery, htimer, -⟩ := Commands.methods_ok _ hleaf
  exact
    { leaf := hleaf
      query := fun h => hquery (of_decide_eq_true h)
      timer := fun h => htimer (of_decide_eq_true h)
      delayed := hc.delayed }

omit hnext hcommands in
theorem handlerOk_delay {c : CommandHandler} (hc : HandlerOk c) (e : Commands.Event) :
    HandlerOk (c.delay e) ∧ (c.delay e).path = c.path := by
  unfold CommandHandler.delay
  split
  · rename_i hdelays
    refine ⟨⟨hc.leaf, hc.query, hc.timer, fun e' he' => ?_⟩, rfl⟩
    rcases List.mem_append.mp he' with hold | hnew
    · exact hc.delayed e' hold
    · obtain rfl := List.mem_singleton.mp hnew
      exact Commands.delayed_events c.path hc.leaf e' (Commands.Event.mem_all e') hdelays
  · exact ⟨hc, rfl⟩

/-- An event of the handler of commands; while it sends commands it gets none that ends its
state. -/
theorem Inv.commandFire (h : Inv s) (hsettled : AllSettled s) {c : CommandHandler}
    (hc : s.commandHandler = some c) (c' : CommandHandler) (hpath : c'.path = c.path)
    (hok : HandlerOk c') {e : Commands.Event} (hstopped : c.path = [.stopped] → e ≠ .onError)
    (hsending : (∃ cmd rows, .commands cmd rows ∈ s.stack) → e ≠ .onDone ∧ e ≠ .onError) :
    Inv (s.commandFire next commandNext c' e) := by
  have hloading : (∃ cmd rows, .commands cmd rows ∈ s.stack) → c'.path ∈ Commands.loading := by
    rintro ⟨cmd, rows, hmem⟩
    obtain ⟨other, hother, hin⟩ := h.calls.frames _ hmem
    rw [hc] at hother
    obtain rfl := Option.some.inj hother
    rwa [hpath]
  have hpast : Past s.path → c'.path = [.stopped] := fun hp => hpath.trans (h.order.past hp c hc)
  unfold Hkd.commandFire
  by_cases hsame : commandNext c'.path e = c'.path
  · rw [if_pos hsame]
    obtain ⟨hdelay, hp⟩ := handlerOk_delay hok e
    exact h.setHandler hc hdelay (hp ▸ hpast) (hp ▸ hloading)
  · rw [if_neg hsame]
    have hedge : Commands.EdgeOk c'.path e (commandNext c'.path e) := by
      rw [hcommands.next_eq Commands.total c'.path e hok.leaf] at hsame ⊢
      exact (Commands.edges_ok _ hok.leaf e (Commands.Event.mem_all e)).resolve_left hsame
    have hnot : c'.path ≠ [.stopped] := fun hp =>
      hstopped (hpath.symm.trans hp) (hedge.stopped hp)
    have hnosend : ¬∃ cmd rows, Frame.commands cmd rows ∈ s.stack := by
      intro hsends
      obtain ⟨hdone, herror⟩ := hsending hsends
      exact (hedge.loading (hloading hsends)).elim hdone herror
    have hnew := handlerOk_arrive hcommands hok e
    have hinv := h.setHandler hc hnew (fun hp => absurd (hpast hp) hnot)
      fun hsends => absurd hsends hnosend
    dsimp only
    split
    · rename_i hmethod
      have hstop := ((Commands.methods_ok _ hnew.leaf).2.2).mp hmethod
      refine hinv.fire hnext hsettled (harmless_inner (by decide) (fun he => nomatch he) ?_)
      exact fun _ other hother => Option.some.inj hother ▸ hstop
    · exact hinv

end Fire

/-! ### What the methods of the states keep -/

section Methods

variable {next : Path → Event → Path} {s t : Hkd} {m : Method} {c : Choice}

/-- The result of a method, or of what it has started. -/
theorem harmless_result (hm : hkd.methodAt s.path = some m)
    (hne : m ≠ .stopAllVms ∧ m ≠ .killAllVms) {e : Event} (he : e ≠ .onCmdStop)
    (hdone : m = .stopVmCommandHandler → CommandsDone s.commandHandler)
    (hcatching : (∃ rows, .zombies rows ∈ s.stack) → e = .onDone ∧ m ≠ .saveState)
    (hstorage : s.postponed = true → s.path ≠ preparingStorage) : Harmless next s e := by
  obtain ⟨hstop, hkill, hhandler, hsave, -⟩ := methods_ok
  refine ⟨fun hpath _ => ?_, fun hpath _ => ?_, fun hzombies => ?_, fun hpostponed hpath => ?_,
    fun h => absurd h he⟩
  · rcases List.mem_cons.mp hpath with hpath | hpath
    · rw [hpath, hstop] at hm
      exact absurd (Option.some.inj hm).symm hne.1
    · rw [List.mem_singleton.mp hpath, hkill] at hm
      exact absurd (Option.some.inj hm).symm hne.2
  · rw [hpath, hhandler] at hm
    exact hdone (Option.some.inj hm).symm
  · obtain ⟨hdone, hm'⟩ := hcatching hzombies
    refine .inr (.inr ⟨hdone, fun hpath => ?_⟩)
    rw [hpath, hsave] at hm
    exact hm' (Option.some.inj hm).symm
  · exact absurd hpath (hstorage hpostponed)

theorem Inv.not_zombies (h : Inv s) (hnot : ¬Catching s.path) :
    ¬∃ rows, Frame.zombies rows ∈ s.stack := by
  rintro ⟨rows, hmem⟩
  exact hnot (h.calls.frames _ hmem)

theorem not_catching {path : Path} (h : Early path) : ¬Catching path :=
  fun hcatching => absurd h (Nat.not_lt.mpr hcatching.1)

theorem AllSettled.enter_notMem (h : AllSettled s) (m : Method) : .enter m ∉ s.stack :=
  fun hmem => Bool.false_ne_true (h _ hmem)

theorem Inv.startQuery (h : Inv s) (hm : hkd.methodAt s.path ∈ queryMethods) :
    Inv { s with queryWatcher := true } :=
  ⟨h.order, h.calls,
    { query := fun _ => hm
      flock := h.watchers.flock
      cmd := h.watchers.cmd
      postponed := h.watchers.postponed
      waiting := h.watchers.waiting
      delayed := h.watchers.delayed }⟩

theorem Inv.callAfter (h : Inv s) {later : Later}
    (hm : later = .acquireFlock →
      hkd.methodAt s.path ∈ [some Method.acquireHkdLock, some .acquireVmLock]) :
    Inv { s with callAfterWatcher := some later } :=
  ⟨h.order, h.calls,
    { query := h.watchers.query
      flock := fun hlater => hm (Option.some.inj hlater)
      cmd := h.watchers.cmd
      postponed := h.watchers.postponed
      waiting := h.watchers.waiting
      delayed := h.watchers.delayed }⟩

/-- Watchers that are done. -/
theorem Inv.unwatch (h : Inv s) (query : Bool) (later : Option Later) (cmd postponed : Bool)
    (hquery : query = true → s.queryWatcher = true)
    (hlater : later = some .acquireFlock → s.callAfterWatcher = some .acquireFlock)
    (hcmd : cmd = true → s.cmdWatcher = true)
    (hpostponed : postponed = true → s.postponed = true) :
    Inv { s with
      queryWatcher := query
      callAfterWatcher := later
      cmdWatcher := cmd
      postponed := postponed } :=
  ⟨h.order, h.calls,
    { query := fun hq => h.watchers.query (hquery hq)
      flock := fun hl => h.watchers.flock (hlater hl)
      cmd := fun hc => by
        obtain ⟨hpath, hnot⟩ := h.watchers.cmd (hcmd hc)
        refine ⟨hpath, Bool.eq_false_iff.mpr fun hp => ?_⟩
        rw [hpostponed hp] at hnot
        cases hnot
      postponed := fun hp => h.watchers.postponed (hpostponed hp)
      waiting := fun hpath hwaits => h.watchers.waiting hpath (hwaits.imp hcmd hpostponed)
      delayed := h.watchers.delayed }⟩

/-- The command of the storage is started, or its failure is postponed. -/
theorem Inv.waitForStorage (h : Inv s) (hsettled : AllSettled s)
    (hpath : s.path = preparingStorage) (cmd : Bool) (hcmd : s.cmdWatcher = false)
    (hpostponed : s.postponed = false) :
    Inv { s with cmdWatcher := cmd, postponed := !cmd } := by
  have hearly : Early s.path := hpath ▸ places.1
  obtain ⟨-, hplace, hplace', -⟩ := places
  have hnone := h.order.absent (lt_trans hearly (hplace.trans hplace')).le
  refine ⟨h.order, h.calls, ?_⟩
  exact
    { query := h.watchers.query
      flock := h.watchers.flock
      cmd := fun hc => ⟨hpath, congrArg Bool.not hc⟩
      postponed := fun _ => ⟨h.order.early hearly, hnone, .inl hpath⟩
      waiting := fun _ _ => hsettled.enter_notMem
      delayed := h.watchers.delayed }

theorem Inv.startWalk (h : Inv s) (hsettled : AllSettled s) {w : Walk} {keys : List ℕ}
    (ht : s.startWalk w keys = some t) : Inv t := by
  unfold Hkd.startWalk at ht
  split at ht
  · rename_i hperm
    obtain rfl := Option.some.inj ht
    refine h.push hsettled trivial (fun hw id hid => ?_) (fun m hm => nomatch hm)
      (fun hsends => nomatch hsends)
    cases w with
    | stopAllL7rs => exact absurd rfl hw
    | stopAllVms => exact hperm.mem_iff.mpr hid
    | killAllVms => exact hperm.mem_iff.mpr hid
  · cases ht

variable (hnext : Follows hkd next)

include hnext

/-- The methods of the start may fail. -/
theorem Inv.earlyResult (h : Inv s) (hsettled : AllSettled s) (hm : hkd.methodAt s.path = some m)
    (hearly : some m ∈ [some Method.acquireHkdLock, some .acquireVmLock, some .checkNetPorts,
      some .checkAddress, some .checkBridgeFw, some .setFwRules, some .prepareStorage])
    (hstorage : s.postponed = true → s.path ≠ preparingStorage) {e : Event}
    (he : e ∈ [Event.onDone, .onError]) : Inv (s.fire next e) := by
  have hp := methods_early s.path h.order.leaf (hm ▸ hearly)
  refine h.fire hnext hsettled (harmless_result hm ?_ ?_ ?_
    (fun hzombies => absurd hzombies (h.not_zombies (not_catching hp))) hstorage)
  · constructor <;>
    · rintro rfl
      exact absurd hearly (by decide)
  · rintro rfl
    exact absurd he (by decide)
  · rintro rfl
    exact absurd hearly (by decide)

theorem Inv.check (h : Inv s) (hsettled : AllSettled s) (hm : hkd.methodAt s.path = some m)
    (hearly : some m ∈ [some Method.acquireHkdLock, some .acquireVmLock, some .checkNetPorts,
      some .checkAddress, some .checkBridgeFw, some .setFwRules, some .prepareStorage])
    (hstorage : s.postponed = true → s.path ≠ preparingStorage)
    (ht : s.check next c = some t) : Inv t := by
  unfold Hkd.check at ht
  split at ht
  · obtain rfl := Option.some.inj ht
    exact h.earlyResult hnext hsettled hm hearly hstorage (by decide)
  · obtain rfl := Option.some.inj ht
    exact h.earlyResult hnext hsettled hm hearly hstorage (by decide)
  · cases ht

theorem Inv.acquireFlock (h : Inv s) (hsettled : AllSettled s)
    (hm : hkd.methodAt s.path ∈ [some Method.acquireHkdLock, some .acquireVmLock])
    (ht : s.acquireFlock next c = some t) : Inv t := by
  obtain ⟨m, hm', hearly⟩ : ∃ m, hkd.methodAt s.path = some m ∧
      some m ∈ [some Method.acquireHkdLock, some .acquireVmLock, some .checkNetPorts,
        some .checkAddress, some .checkBridgeFw, some .setFwRules, some .prepareStorage] := by
    rcases List.mem_cons.mp hm with hm | hm
    · exact ⟨_, hm, by decide⟩
    · exact ⟨_, List.mem_singleton.mp hm, by decide⟩
  have hstorage : s.postponed = true → s.path ≠ preparingStorage := by
    intro _ hpath
    rw [hpath, methods_ok.2.2.2.2] at hm
    exact absurd hm (by decide)
  unfold Hkd.acquireFlock at ht
  split at ht
  · obtain rfl := Option.some.inj ht
    exact h.earlyResult hnext hsettled hm' hearly hstorage (by decide)
  · obtain rfl := Option.some.inj ht
    exact h.earlyResult hnext hsettled hm' hearly hstorage (by decide)
  · obtain rfl := Option.some.inj ht
    exact h.callAfter fun _ => hm
  · cases ht

theorem Inv.prepareStorage (h : Inv s) (hsettled : AllSettled s)
    (hm : hkd.methodAt s.path = some .prepareStorage) (hcmd : s.cmdWatcher = false)
    (hpostponed : s.postponed = false) (ht : s.prepareStorage next c = some t) : Inv t := by
  have hpath := (method_states s.path h.order.leaf).1 hm
  have hwait := fun cmd => h.waitForStorage hsettled hpath cmd hcmd hpostponed
  unfold Hkd.prepareStorage at ht
  split at ht
  · obtain rfl := Option.some.inj ht
    have hinv := hwait true
    rwa [Bool.not_true, ← hpostponed] at hinv
  · obtain rfl := Option.some.inj ht
    have hinv := hwait false
    rwa [Bool.not_false, ← hcmd] at hinv
  · refine h.check hnext hsettled hm (by decide) (fun hp => ?_) ht
    rw [hpostponed] at hp
    cases hp

/-- A method that goes on at once. -/
theorem Inv.done (h : Inv s) (hsettled : AllSettled s) (hm : hkd.methodAt s.path = some m)
    (hne : m ∉ [Method.stopAllVms, .killAllVms, .saveState])
    (hdone : m = .stopVmCommandHandler → CommandsDone s.commandHandler)
    (hstorage : m ≠ .prepareStorage) : Inv (s.fire next .onDone) := by
  refine h.fire hnext hsettled (harmless_result hm ⟨?_, ?_⟩ (by decide) hdone
    (fun _ => ⟨rfl, ?_⟩) fun _ hpath => ?_)
  · rintro rfl
    exact hne (by decide)
  · rintro rfl
    exact hne (by decide)
  · rintro rfl
    exact hne (by decide)
  · rw [hpath, methods_ok.2.2.2.2] at hm
    exact hstorage (Option.some.inj hm).symm

omit hnext in
theorem Inv.addHandler (h : Inv s) (hbefore : place runningAgents < place s.path)
    (hpast : ¬Past s.path) (hnone : s.commandHandler = none) (hpostponed : s.postponed = false)
    {c : CommandHandler} (hok : HandlerOk c) (listener : Bool) :
    Inv { s with commandHandler := some c, l7rListener := listener } := by
  refine ⟨?_, ⟨fun f hf => ?_, h.calls.top, h.calls.settled, h.calls.sending⟩, ?_⟩
  · exact
      { leaf := h.order.leaf
        early := h.order.early
        absent := fun hle => absurd hbefore (Nat.not_lt.mpr hle)
        past := fun hp => absurd hp hpast
        late := h.order.late
        handler := fun other hother => Option.some.inj hother ▸ hok }
  · have hframe := h.calls.frames f hf
    cases f with
    | commands cmd rows =>
      obtain ⟨other, hother, -⟩ := hframe
      rw [hnone] at hother
      cases hother
    | zombies rows => exact hframe
    | _ => trivial
  · exact
      { query := h.watchers.query
        flock := h.watchers.flock
        cmd := h.watchers.cmd
        postponed := fun hp => absurd hp (by simp [hpostponed])
        waiting := h.watchers.waiting
        delayed := h.watchers.delayed }

omit hnext in
theorem fire_setHandler (c : Option CommandHandler) (listener : Bool) (e : Event) :
    { s with commandHandler := c, l7rListener := listener }.fire next e =
      { s.fire next e with commandHandler := c, l7rListener := listener } := by
  unfold Hkd.fire
  split
  · rfl
  · rfl

/-- The handler of commands is made where there is none, and the daemon goes on. -/
theorem Inv.startLaterAgents (h : Inv s) (hsettled : AllSettled s)
    (hm : hkd.methodAt s.path = some .startLaterAgents) {c : CommandHandler} (hok : HandlerOk c)
    (listener : Bool) :
    Inv ({ s with commandHandler := some c, l7rListener := listener }.fire next .onDone) := by
  have hpath := (method_states s.path h.order.leaf).2.2.1 hm
  obtain ⟨h1, h2, h3, h4, h5, h6⟩ := places
  obtain ⟨hmoves, hbefore, hpast⟩ := next_runningAgents
  have hto : next s.path .onDone = hkd.next 3 runningAgents .onDone := by
    rw [hnext.next_eq hkd_total s.path _ h.order.leaf, hpath]
  have hfire : s.fire next .onDone = s.arrive (hkd.next 3 runningAgents .onDone) := by
    unfold Hkd.fire
    rw [hto, if_neg (hpath ▸ hmoves)]
  have hpostponed : s.postponed = false := by
    refine Bool.eq_false_iff.mpr fun hp => ?_
    rcases (h.watchers.postponed hp).2.2 with hstorage | hstopping
    · rw [hpath] at hstorage
      exact absurd hstorage (by decide)
    · unfold Stopping at hstopping
      rw [hpath] at hstopping
      omega
  have hinv := h.done hnext hsettled hm (by decide) (fun h => nomatch h) (by decide)
  rw [fire_setHandler]
  rw [hfire] at hinv ⊢
  exact hinv.addHandler hbefore hpast (h.order.absent (hpath ▸ le_rfl)) hpostponed hok listener

variable {commandNext : Commands.Path → Commands.Event → Commands.Path}
  (hcommands : Follows Commands.table commandNext)

include hcommands

omit hnext in
theorem handlerOk_new : HandlerOk (CommandHandler.arrive { path := [.new] }
    (commandNext [.new] .onRun)) := by
  refine handlerOk_arrive hcommands (c := { path := [.new] }) ⟨by decide, ?_, ?_, ?_⟩ .onRun
  · exact fun h => nomatch h
  · exact fun h => nomatch h
  · exact fun e he => nomatch he

theorem Inv.stopVmCommandHandler (h : Inv s) (hsettled : AllSettled s)
    (hm : hkd.methodAt s.path = some .stopVmCommandHandler) :
    Inv (s.stopVmCommandHandler next commandNext) := by
  unfold Hkd.stopVmCommandHandler
  split
  · rename_i hnone
    refine h.done hnext hsettled hm (by decide) (fun _ c hc => ?_) (by decide)
    rw [hnone] at hc
    cases hc
  · rename_i c hc
    exact h.commandFire hnext hcommands hsettled hc c rfl (h.order.handler c hc)
      (fun _ he => nomatch he) fun _ => ⟨(fun he => nomatch he), fun he => nomatch he⟩

/-- The method of a state, once it begins. -/
theorem Inv.begin {cfg : Config} (h : Inv s) (hsettled : AllSettled s)
    (hm : hkd.methodAt s.path = some m)
    (hstorage : s.path = preparingStorage → s.cmdWatcher = false ∧ s.postponed = false)
    (ht : s.begin next commandNext cfg m c = some t) : Inv t := by
  have hstorage' : s.postponed = true → s.path ≠ preparingStorage := by
    intro hp hpath
    rw [(hstorage hpath).2] at hp
    cases hp
  cases m with
  | acquireHkdLock | acquireVmLock =>
    exact h.acquireFlock hnext hsettled (by rw [hm]; decide) ht
  | checkNetPorts | checkAddress | checkBridgeFw | setFwRules =>
    exact h.check hnext hsettled hm (by decide) hstorage' ht
  | prepareStorage =>
    obtain ⟨hcmd, hpostponed⟩ := hstorage ((method_states s.path h.order.leaf).1 hm)
    exact h.prepareStorage hnext hsettled hm hcmd hpostponed ht
  | startDb | setProcessLimits | removeFwRules =>
    obtain rfl := Option.some.inj ht
    exact h.done hnext hsettled hm (by decide) (fun h => nomatch h) (by decide)
  | checkDbVersion | loadHostRow | saveState | saveLoadbalData | cleanupZombieL7rs
  | searchZombieVms =>
    obtain rfl := Option.some.inj ht
    exact h.startQuery (by rw [hm]; decide)
  | startConfig | sayGoodbye =>
    obtain rfl := Option.some.inj ht
    exact h
  | startHypervisor =>
    obtain rfl := Option.some.inj ht
    have hinv : Inv { s with agents := s.agents.insert .hypervisor } := h.congr rfl
    exact hinv.done hnext hsettled hm (by decide) (fun h => nomatch h) (by decide)
  | startAgents =>
    obtain rfl := Option.some.inj ht
    have hinv : Inv { s with agents := s.agents.union (Hkd.startedAgents cfg) } := h.congr rfl
    exact hinv.done hnext hsettled hm (by decide) (fun h => nomatch h) (by decide)
  | startTicker =>
    obtain rfl := Option.some.inj ht
    exact h.congr rfl
  | catchZombieVms =>
    unfold Hkd.begin at ht
    dsimp only at ht
    split at ht
    · obtain rfl := Option.some.inj ht
      exact h.done hnext hsettled hm (by decide) (fun h => nomatch h) (by decide)
    · obtain rfl := Option.some.inj ht
      have hpath := (method_states s.path h.order.leaf).2.1 hm
      have hcatching : Catching s.path := hpath ▸ ⟨le_rfl, places.2.1.le⟩
      have hinv : Inv { s with zombieVms := [] } := h.congr rfl
      exact hinv.push (f := .zombies s.zombieVms) hsettled hcatching trivial
        (fun m hm => nomatch hm) fun hsends => nomatch hsends
  | startLaterAgents =>
    obtain rfl := Option.some.inj ht
    exact h.startLaterAgents hnext hsettled hm (handlerOk_new hcommands) true
  | stopL7rListener =>
    unfold Hkd.begin at ht
    dsimp only at ht
    split at ht
    · obtain rfl := Option.some.inj ht
      exact h.push hsettled trivial trivial (fun m hm => nomatch hm) fun hsends => nomatch hsends
    · obtain rfl := Option.some.inj ht
      exact h.done hnext hsettled hm (by decide) (fun h => nomatch h) (by decide)
  | stopVmCommandHandler =>
    obtain rfl := Option.some.inj ht
    exact h.stopVmCommandHandler hnext hcommands hsettled hm
  | stopAllL7rs | stopAllVms | killAllVms =>
    cases c with
    | keys keys => exact h.startWalk hsettled ht
    | _ => cases ht
  | stopAllAgents =>
    unfold Hkd.begin at ht
    dsimp only at ht
    split at ht
    · rename_i hnone
      obtain rfl := Option.some.inj ht
      unfold Hkd.checkAllAgentsHaveStopped
      rw [if_pos hnone]
      exact h.fire hnext hsettled (harmless_inner (by decide) (fun he => nomatch he)
        fun he => nomatch he)
    · obtain rfl := Option.some.inj ht
      exact h.push hsettled trivial trivial (fun m hm => nomatch hm) fun hsends => nomatch hsends

end Methods

/-! ### What the calls keep -/

section Steps

variable {next : Path → Event → Path} (hnext : Follows hkd next)
  {commandNext : Commands.Path → Commands.Event → Commands.Path}
  (hcommands : Follows Commands.table commandNext) {cfg : Config} {s t : Hkd} {c : Choice}

include hnext

/-- Handlers of machines that have stopped. -/
theorem Inv.onVmStopped (h : Inv s) (hsettled : AllSettled s) (id : ℕ) :
    Inv (s.onVmStopped next id) := by
  have hinv : Inv { s with vms := s.vms.filter (· ≠ id) } := by
    have hnil : s.vms = [] → s.vms.filter (· ≠ id) = [] := by
      intro hvms
      rw [hvms]
      rfl
    refine ⟨?_, calls_of_settled h.calls.frames hsettled h.calls.sending, ?_⟩
    · exact
        { leaf := h.order.leaf
          early := fun hearly => hnil (h.order.early hearly)
          absent := h.order.absent
          past := h.order.past
          late := fun hlate => hnil (h.order.late hlate)
          handler := h.order.handler }
    · exact
        { query := h.watchers.query
          flock := h.watchers.flock
          cmd := h.watchers.cmd
          postponed := fun hp => by
            obtain ⟨hvms, hrest⟩ := h.watchers.postponed hp
            exact ⟨hnil hvms, hrest⟩
          waiting := h.watchers.waiting
          delayed := h.watchers.delayed }
  unfold Hkd.onVmStopped
  dsimp only
  split
  · rename_i hvms
    exact hinv.fire hnext hsettled (harmless_inner (by decide) (fun _ => hvms)
      fun he => nomatch he)
  · exact hinv

theorem Inv.onL7rStopped (h : Inv s) (hsettled : AllSettled s) (pid : ℕ) :
    Inv (s.onL7rStopped next pid) := by
  have hinv : Inv { s with l7rs := s.l7rs.filter (· ≠ pid) } := h.congr rfl
  unfold Hkd.onL7rStopped
  dsimp only
  split
  · exact hinv.fire hnext hsettled (harmless_inner (by decide) (fun he => nomatch he)
      fun he => nomatch he)
  · exact hinv

theorem Inv.onAgentStopped (h : Inv s) (hsettled : AllSettled s) (name : AgentName) :
    Inv (s.onAgentStopped next name) := by
  have hinv : Inv { s with agents := s.agents.filter (· ≠ name) } := h.congr rfl
  unfold Hkd.onAgentStopped Hkd.checkAllAgentsHaveStopped
  split
  · exact hinv.fire hnext hsettled (harmless_inner (by decide) (fun he => nomatch he)
      fun he => nomatch he)
  · exact hinv

omit hnext in
/-- A handler of a machine is made where the table of handlers may have entries. -/
theorem Inv.newVmHandler (h : Inv s) (hsettled : AllSettled s) (hearly : ¬Early s.path)
    (hlate : ¬Late s.path) (hpostponed : s.postponed = false) (id : ℕ) :
    Inv (s.newVmHandler id) := by
  refine ⟨?_, calls_of_settled h.calls.frames hsettled h.calls.sending, ?_⟩
  · exact
      { leaf := h.order.leaf
        early := fun he => absurd he hearly
        absent := h.order.absent
        past := h.order.past
        late := fun hl => absurd hl hlate
        handler := h.order.handler }
  · exact
      { query := h.watchers.query
        flock := h.watchers.flock
        cmd := h.watchers.cmd
        postponed := fun hp => absurd hp (by simp [Hkd.newVmHandler, hpostponed])
        waiting := h.watchers.waiting
        delayed := h.watchers.delayed }

omit hnext in
/-- Commands are sent by a handler that has not stopped. -/
theorem Inv.onVmCmd (h : Inv s) (hsettled : AllSettled s) {handler : CommandHandler}
    (hhandler : s.commandHandler = some handler) (hloading : handler.path ∈ Commands.loading)
    (id : ℕ) (cmd : VmCmd) : Inv (s.onVmCmd id cmd) := by
  have hpast : ¬Past s.path := by
    intro hp
    rw [h.order.past hp handler hhandler] at hloading
    exact absurd hloading (by decide)
  have hbefore : ¬place s.path ≤ place runningAgents := by
    intro hle
    rw [h.order.absent hle] at hhandler
    cases hhandler
  obtain ⟨h1, h2, h3, h4, h5, h6⟩ := places
  have hearly : ¬Early s.path := by
    unfold Early
    omega
  have hlate : ¬Late s.path := by
    unfold Late
    unfold Past at hpast
    omega
  have hpostponed : s.postponed = false := by
    refine Bool.eq_false_iff.mpr fun hp => ?_
    rw [(h.watchers.postponed hp).2.1] at hhandler
    cases hhandler
  unfold Hkd.onVmCmd
  split
  · split
    · exact h
    · exact h.push hsettled trivial trivial (fun m hm => nomatch hm) fun hsends => nomatch hsends
  · split
    · exact Inv.push (h.newVmHandler hsettled hearly hlate hpostponed id) hsettled trivial trivial
        (fun m hm => nomatch hm) fun hsends => nomatch hsends
    · exact h

/-- A step of a walk: with no entry found the table is empty in the end. -/
theorem Inv.walk (h : Inv s) (hsettled : AllSettled s) {w : Walk} {keys : List ℕ} {count : ℕ}
    (htop : TopOk s.path s.vms (.walk w keys count))
    (ht : s.step next commandNext cfg (.walk w keys count) c = some t) : Inv t := by
  cases keys with
  | nil =>
    cases count with
    | zero =>
      obtain rfl := Option.some.inj ht
      refine h.fire hnext hsettled (harmless_inner (by cases w <;> decide) (fun hevent => ?_)
        (by cases w <;> exact fun hevent => nomatch hevent))
      refine List.eq_nil_iff_forall_not_mem.mpr fun id hid => ?_
      exact List.not_mem_nil (htop (by rintro rfl; cases hevent) id hid)
    | succ count =>
      obtain rfl := Option.some.inj ht
      exact h.callAfter fun hlater => by cases w <;> cases hlater
  | cons key keys =>
    have hframe : (Frame.walk w keys (count + 1)).calling = true := rfl
    simp only [Hkd.step] at ht
    split at ht
    · obtain rfl := Option.some.inj ht
      have hwalk : Inv (s.push (.walk w keys (count + 1))) :=
        h.push hsettled trivial trivial (fun m hm => nomatch hm) fun hsends => nomatch hsends
      cases w <;>
        exact hwalk.push (hsettled.push hframe) trivial trivial (fun m hm => nomatch hm)
          fun hsends => nomatch hsends
    · rename_i hnot
      obtain rfl := Option.some.inj ht
      refine h.push hsettled trivial ?_ (fun m hm => nomatch hm) fun hsends => nomatch hsends
      cases count with
      | zero =>
        intro hw id hid
        refine (List.mem_cons.mp (htop hw id hid)).resolve_left ?_
        rintro rfl
        cases w with
        | stopAllL7rs => exact hw rfl
        | stopAllVms => exact hnot hid
        | killAllVms => exact hnot hid
      | succ count => trivial

include hcommands

/-- A step of the innermost call, with the others below it. -/
theorem Inv.step {f : Frame} {rest : List Frame} (h : Inv s) (hstack : s.stack = f :: rest)
    (ht : { s with stack := rest }.step next commandNext cfg f c = some t) : Inv t := by
  have hsub : rest.Sublist s.stack.tail := by rw [hstack, List.tail_cons]
  obtain ⟨hinv, hsettled⟩ := h.drop hsub
  have hframe : FrameOk s.path s.commandHandler f :=
    h.calls.frames f (by rw [hstack]; exact List.mem_cons_self)
  have htop : TopOk s.path s.vms f := h.calls.top f (by rw [hstack]; rfl)
  -- a call that goes on while something else runs on top of it
  have hagain : ∀ g, FrameOk s.path s.commandHandler g → g.calling = true → g.sends = false →
      Inv ({ s with stack := rest }.push g) ∧ AllSettled ({ s with stack := rest }.push g) := by
    intro g hg hcalling hsends
    refine ⟨hinv.push hsettled hg (topOk_of_calling hcalling) ?_ ?_, hsettled.push hcalling⟩
    · rintro m rfl
      cases hcalling
    · intro hs
      rw [hsends] at hs
      cases hs
  cases f with
  | enter m =>
    refine hinv.begin hnext hcommands hsettled htop (fun hpath => ?_) ht
    have hnot : ¬(s.cmdWatcher = true ∨ s.postponed = true) := fun hwaits =>
      h.watchers.waiting hpath hwaits m (by rw [hstack]; exact List.mem_cons_self)
    obtain ⟨hcmd, hpostponed⟩ := not_or.mp hnot
    exact ⟨Bool.eq_false_iff.mpr hcmd, Bool.eq_false_iff.mpr hpostponed⟩
  | walk w keys count => exact hinv.walk hnext hsettled htop ht
  | vm call =>
    obtain ⟨hpush, hpushed⟩ := hagain (.vm call) trivial rfl rfl
    cases c with
    | stopped id =>
      obtain rfl := Option.some.inj ht
      exact hpush.onVmStopped hnext hpushed id
    | goOn =>
      obtain rfl := Option.some.inj ht
      exact hinv
    | _ => cases ht
  | l7r =>
    obtain ⟨hpush, hpushed⟩ := hagain .l7r trivial rfl rfl
    cases c with
    | stopped pid =>
      obtain rfl := Option.some.inj ht
      exact hpush.onL7rStopped hnext hpushed pid
    | goOn =>
      obtain rfl := Option.some.inj ht
      exact hinv
    | _ => cases ht
  | l7rListener =>
    obtain ⟨hpush, hpushed⟩ := hagain .l7rListener trivial rfl rfl
    cases c with
    | stopped _ =>
      obtain rfl := Option.some.inj ht
      exact hpush.fire hnext hpushed (harmless_inner (by decide) (fun he => nomatch he)
        fun he => nomatch he)
    | goOn =>
      obtain rfl := Option.some.inj ht
      exact hinv
    | _ => cases ht
  | agent =>
    obtain ⟨hpush, hpushed⟩ := hagain .agent trivial rfl rfl
    cases c with
    | agentStopped name =>
      obtain rfl := Option.some.inj ht
      exact hpush.onAgentStopped hnext hpushed name
    | goOn =>
      obtain rfl := Option.some.inj ht
      exact hinv
    | _ => cases ht
  | zombies rows =>
    cases rows with
    | nil =>
      obtain rfl := Option.some.inj ht
      exact hinv
    | cons id rows =>
      obtain rfl := Option.some.inj ht
      obtain ⟨h1, h2, h3, h4, h5, h6⟩ := places
      obtain ⟨hfrom, hto⟩ := hframe
      have hpostponed : s.postponed = false := by
        refine Bool.eq_false_iff.mpr fun hp => ?_
        rcases (h.watchers.postponed hp).2.2 with hpath | hstopping
        · rw [hpath] at hfrom
          omega
        · unfold Stopping at hstopping
          omega
      have hlate : ¬Late s.path := by
        unfold Late
        omega
      have hmade := hinv.newVmHandler hsettled (Nat.not_lt.mpr hfrom) hlate hpostponed id
      have hloop := hmade.push (f := .zombies rows) hsettled ⟨hfrom, hto⟩ trivial
        (fun m hm => nomatch hm) fun hsends => nomatch hsends
      exact hloop.push (hsettled.push (f := .zombies rows) rfl) trivial trivial
        (fun m hm => nomatch hm) fun hsends => nomatch hsends
  | commands cmd rows =>
    obtain ⟨handler, hhandler, hloading⟩ := hframe
    -- commands are sent by one call only
    have halone : rest.countP Frame.sends = 0 := by
      have hcount := h.calls.sending
      rw [hstack, List.countP_cons_of_pos rfl] at hcount
      omega
    cases rows with
    | nil =>
      simp only [Hkd.step, hhandler, Option.map_some, Option.some.injEq] at ht
      subst ht
      refine hinv.commandFire hnext hcommands hsettled hhandler handler rfl
        (h.order.handler handler hhandler) (fun hpath => ?_) fun hsends => ?_
      · rw [hpath] at hloading
        exact absurd hloading (by decide)
      · obtain ⟨cmd', rows', hmem⟩ := hsends
        exact absurd rfl (List.countP_eq_zero.mp halone _ hmem)
    | cons id rows =>
      obtain rfl := Option.some.inj ht
      have hloop := hinv.push (f := .commands cmd rows) hsettled ⟨handler, hhandler, hloading⟩
        trivial (fun m hm => nomatch hm) fun _ => halone
      exact hloop.onVmCmd (hsettled.push rfl) hhandler hloading id cmd
  | agents names =>
    cases names with
    | nil =>
      obtain rfl := Option.some.inj ht
      exact hinv
    | cons name names =>
      obtain ⟨hpush, hpushed⟩ := hagain (.agents names) trivial rfl rfl
      simp only [Hkd.step] at ht
      split at ht
      · obtain rfl := Option.some.inj ht
        exact hpush.push hpushed trivial trivial (fun m hm => nomatch hm)
          fun hsends => nomatch hsends
      · obtain rfl := Option.some.inj ht
        exact hpush

end Steps

/-! ### What the event loop keeps -/

section Loop

variable {next : Path → Event → Path} (hnext : Follows hkd next)
  {commandNext : Commands.Path → Commands.Event → Commands.Path}
  (hcommands : Follows Commands.table commandNext) {cfg : Config} {s t : Hkd}

include hnext

/-- With no calls left an event that tells no result does no harm. -/
theorem Inv.outerEvent (h : Inv s) (hstack : s.stack = []) {e : Event}
    (he : e ∉ [Event.onDone, .onError, .onNoVmsAreRunning, .onVmCommandHandlerStopped])
    (hnew : e = .onCmdStop → s.path ≠ [.new]) : Inv (s.fire next e) := by
  refine h.fire hnext (fun f hf => absurd (hstack ▸ hf) List.not_mem_nil) ?_
  refine ⟨fun _ hmem => ?_, fun _ hmem => ?_, ?_, fun _ _ => ?_, hnew⟩
  · exact absurd hmem (by revert he; cases e <;> decide)
  · exact absurd hmem (by revert he; cases e <;> decide)
  · rintro ⟨rows, hmem⟩
    exact absurd (hstack ▸ hmem) List.not_mem_nil
  · rintro rfl
    exact he (by decide)

/-- The result of what a state was waiting for. -/
theorem Inv.fireResult (h : Inv s) (hstack : s.stack = []) {m : Method}
    (hm : hkd.methodAt s.path = some m)
    (hne : m ∉ [Method.stopAllVms, .killAllVms, .stopVmCommandHandler])
    (hstorage : s.postponed = true → s.path ≠ preparingStorage) (failed : Bool) :
    Inv (s.fireResult next failed) := by
  refine h.fire hnext (fun f hf => absurd (hstack ▸ hf) List.not_mem_nil)
    (harmless_result hm ⟨?_, ?_⟩ (by cases failed <;> decide) ?_ ?_ hstorage)
  · rintro rfl
    exact hne (by decide)
  · rintro rfl
    exact hne (by decide)
  · rintro rfl
    exact absurd (by decide) hne
  · rintro ⟨rows, hmem⟩
    exact absurd (hstack ▸ hmem) List.not_mem_nil

/-- A failure that was postponed finds a daemon that has no handlers. -/
theorem Inv.postponedError (h : Inv s) (hstack : s.stack = []) (hpostponed : s.postponed = true) :
    Inv ({ s with postponed := false }.fire next .onError) := by
  obtain ⟨hvms, hnone, -⟩ := h.watchers.postponed hpostponed
  have hinv := h.unwatch s.queryWatcher s.callAfterWatcher s.cmdWatcher false id id id
    (fun hp => nomatch hp)
  refine hinv.fire hnext (fun f hf => absurd (hstack ▸ hf) List.not_mem_nil)
    ⟨fun _ _ => hvms, fun _ _ c hc => ?_, ?_, fun hp => (nomatch hp), fun he => nomatch he⟩
  · rw [show s.commandHandler = some c from hc] at hnone
    cases hnone
  · rintro ⟨rows, hmem⟩
    exact absurd (hstack ▸ hmem) List.not_mem_nil

/-- What `_call_after` has put off. -/
theorem Inv.calledAfter (h : Inv s) (hstack : s.stack = []) {c : Choice}
    (ht : s.occur next commandNext (.callAfter c) = some t) : Inv t := by
  have hsettled : AllSettled s := fun f hf => absurd (hstack ▸ hf) List.not_mem_nil
  have hinv := h.unwatch s.queryWatcher none s.cmdWatcher s.postponed id (fun hl => nomatch hl) id id
  simp only [Hkd.occur] at ht
  split at ht
  · rename_i hlater
    exact hinv.acquireFlock hnext hsettled (h.watchers.flock hlater) ht
  · obtain rfl := Option.some.inj ht
    exact hinv.outerEvent hnext hstack (by decide) fun he => nomatch he
  · exact hinv.startWalk hsettled ht
  · cases ht

include hcommands

/-- What happens to the handler of commands. -/
theorem Inv.commandEvent (h : Inv s) (hstack : s.stack = []) {c : CommandHandler}
    (hc : s.commandHandler = some c) (c' : CommandHandler) (hpath : c'.path = c.path)
    (hok : HandlerOk c') {e : Commands.Event} (hstopped : c.path = [.stopped] → e ≠ .onError) :
    Inv (s.commandFire next commandNext c' e) := by
  refine h.commandFire hnext hcommands (fun f hf => absurd (hstack ▸ hf) List.not_mem_nil)
    hc c' hpath hok hstopped ?_
  rintro ⟨cmd, rows, hmem⟩
  exact absurd (hstack ▸ hmem) List.not_mem_nil

theorem Inv.commandQuery (h : Inv s) (hstack : s.stack = []) {c : CommandHandler}
    (hc : s.commandHandler = some c) (hquery : c.query = true) (rows : Option (List ℕ)) :
    Inv (s.commandQuery next commandNext c rows) := by
  have hok := h.order.handler c hc
  have hloading := hok.query hquery
  have hok' : HandlerOk { c with query := false } :=
    ⟨hok.leaf, fun hq => (nomatch hq), hok.timer, hok.delayed⟩
  cases rows with
  | none =>
    refine h.commandEvent hnext hcommands hstack hc { c with query := false } rfl hok'
      fun hpath => ?_
    rw [hpath] at hloading
    exact absurd hloading (by decide)
  | some rows =>
    have hinv := h.setHandler hc hok' (fun hp => h.order.past hp c hc) fun _ => hloading
    have hsettled : AllSettled s := fun f hf => absurd (hstack ▸ hf) List.not_mem_nil
    refine hinv.push hsettled ⟨_, rfl, hloading⟩ trivial (fun m hm => nomatch hm) fun _ => ?_
    show s.stack.countP Frame.sends = 0
    rw [hstack]
    rfl

theorem Inv.occur (h : Inv s) (hstack : s.stack = []) {o : Occurrence}
    (hnew : s.path = [.new] → o = .run) (ht : s.occur next commandNext o = some t) : Inv t := by
  have hsettled : AllSettled s := fun f hf => absurd (hstack ▸ hf) List.not_mem_nil
  have hpush : ∀ g, FrameOk s.path s.commandHandler g → g.calling = true → g.sends = false →
      Inv (s.push g) := by
    intro g hg hcalling hsends
    refine h.push hsettled hg (topOk_of_calling hcalling) ?_ ?_
    · rintro m rfl
      cases hcalling
    · intro hs
      rw [hsends] at hs
      cases hs
  cases o with
  | run =>
    simp only [Hkd.occur] at ht
    split at ht
    · obtain rfl := Option.some.inj ht
      exact h.outerEvent hnext hstack (by decide) fun he => nomatch he
    · cases ht
  | event e =>
    simp only [Hkd.occur] at ht
    split at ht
    · rename_i he
      obtain rfl := Option.some.inj ht
      refine h.outerEvent hnext hstack ?_ fun _ hpath => nomatch hnew hpath
      revert he
      cases e <;> decide
    · cases ht
  | query failed rows =>
    simp only [Hkd.occur] at ht
    split at ht
    · rename_i hwatcher
      obtain rfl := Option.some.inj ht
      have hquery := h.watchers.query hwatcher
      have hinv : ∀ rows, Inv { s with queryWatcher := false, zombieVms := rows } := fun rows =>
        (h.unwatch false s.callAfterWatcher s.cmdWatcher s.postponed
          (fun hq => nomatch hq) id id id).congr rfl
      obtain ⟨m, hm⟩ : ∃ m, hkd.methodAt s.path = some m := by
        cases hm : hkd.methodAt s.path with
        | none =>
          rw [hm] at hquery
          exact absurd hquery (by decide)
        | some m => exact ⟨m, rfl⟩
      rw [hm] at hquery
      refine (hinv _).fireResult hnext hstack hm ?_ (fun _ hpath => ?_) failed
      · intro hmem
        revert hquery hmem
        cases m <;> decide
      · rw [show s.path = preparingStorage from hpath, methods_ok.2.2.2.2] at hm
        rw [← hm] at hquery
        exact absurd hquery (by decide)
    · cases ht
  | callAfter c => exact h.calledAfter hnext hstack ht
  | cmd failed =>
    simp only [Hkd.occur] at ht
    split at ht
    · rename_i hwatcher
      obtain rfl := Option.some.inj ht
      obtain ⟨hpath, hpostponed⟩ := h.watchers.cmd hwatcher
      have hinv := h.unwatch s.queryWatcher s.callAfterWatcher false s.postponed id id
        (fun hc => nomatch hc) id
      refine hinv.fireResult hnext hstack (m := .prepareStorage) ?_ (by decide) (fun hp => ?_) failed
      · exact hpath ▸ methods_ok.2.2.2.2
      · rw [show s.postponed = true from hp] at hpostponed
        cases hpostponed
    · cases ht
  | postponed =>
    simp only [Hkd.occur] at ht
    split at ht
    · rename_i hpostponed
      obtain rfl := Option.some.inj ht
      exact h.postponedError hnext hstack hpostponed
    · cases ht
  | vm =>
    obtain rfl := Option.some.inj ht
    exact hpush (.vm .own) trivial rfl rfl
  | l7r =>
    obtain rfl := Option.some.inj ht
    exact hpush .l7r trivial rfl rfl
  | agent =>
    obtain rfl := Option.some.inj ht
    exact hpush .agent trivial rfl rfl
  | l7rConnection pid =>
    obtain rfl := Option.some.inj ht
    exact h.congr rfl
  | commandTimer =>
    obtain ⟨c, hc, ht⟩ := Option.bind_eq_some_iff.mp ht
    split at ht
    · obtain rfl := Option.some.inj ht
      have hok := h.order.handler c hc
      exact h.commandEvent hnext hcommands hstack hc { c with timer := false } rfl
        ⟨hok.leaf, hok.query, fun hq => (nomatch hq), hok.delayed⟩ fun _ he => nomatch he
    · cases ht
  | commandNotify =>
    obtain ⟨c, hc, rfl⟩ := Option.map_eq_some_iff.mp ht
    exact h.commandEvent hnext hcommands hstack hc c rfl (h.order.handler c hc)
      fun _ he => nomatch he
  | commandQuery rows =>
    obtain ⟨c, hc, ht⟩ := Option.bind_eq_some_iff.mp ht
    split at ht
    · rename_i hquery
      obtain rfl := Option.some.inj ht
      exact h.commandQuery hnext hcommands hstack hc hquery rows
    · cases ht

omit hnext hcommands in
theorem Inv.allSettled (h : Inv s) (hall : s.stack.head?.all Frame.calling = true) :
    AllSettled s := by
  intro f hf
  cases hstack : s.stack with
  | nil =>
    rw [hstack] at hf
    cases hf
  | cons g rest =>
    rw [hstack] at hf hall
    rcases List.mem_cons.mp hf with rfl | hrest
    · exact hall
    · exact h.calls.settled f (by rw [hstack]; exact hrest)

omit hcommands in
/-- A stop that was delayed. -/
theorem Inv.resume (h : Inv s) (hdelayed : s.delayedStop = true) (hsettled : AllSettled s) :
    Inv ({ s with delayedStop := false }.fire next .onCmdStop) := by
  have hplace := h.watchers.delayed hdelayed
  have hinv : Inv { s with delayedStop := false } := ⟨h.order, h.calls,
    { query := h.watchers.query
      flock := h.watchers.flock
      cmd := h.watchers.cmd
      postponed := h.watchers.postponed
      waiting := h.watchers.waiting
      delayed := fun hd => nomatch hd }⟩
  refine hinv.fire hnext hsettled ⟨fun _ hmem => ?_, fun _ hmem => ?_, ?_, fun _ _ => ?_, ?_⟩
  · exact absurd hmem (by decide)
  · exact absurd hmem (by decide)
  · rintro ⟨rows, hmem⟩
    refine .inl ?_
    have hcatching : Catching s.path := h.calls.frames _ hmem
    rw [hnext.next_eq hkd_total _ _ h.order.leaf]
    exact next_onCmdStop s.path h.order.leaf hcatching hplace
  · exact fun he => nomatch he
  · intro _ hpath
    rw [show s.path = [.new] from hpath] at hplace
    exact absurd hplace (by decide +kernel)

/-- Every step keeps the invariant. -/
theorem Inv.perform {l : Label} (h : Inv s) (ht : s.perform next commandNext cfg l = some t) :
    Inv t := by
  cases l with
  | occur o =>
    simp only [Hkd.perform] at ht
    split at ht
    · rename_i hready
      exact h.occur hnext hcommands hready.1 hready.2 ht
    · cases ht
  | call c =>
    simp only [Hkd.perform] at ht
    cases hstack : s.stack with
    | nil =>
      rw [hstack] at ht
      cases ht
    | cons f rest =>
      rw [hstack] at ht
      exact h.step hnext hcommands hstack ht
  | resume =>
    simp only [Hkd.perform] at ht
    split at ht
    · rename_i hready
      obtain rfl := Option.some.inj ht
      exact h.resume hnext hready.1 (h.allSettled hready.2)
    · cases ht
  | resumeCommand =>
    simp only [Hkd.perform] at ht
    split at ht
    · rename_i hready
      obtain ⟨c, hc, ht⟩ := Option.bind_eq_some_iff.mp ht
      have hok := h.order.handler c hc
      cases hdelayed : c.delayed with
      | nil =>
        rw [hdelayed] at ht
        cases ht
      | cons e delayed =>
        rw [hdelayed] at ht
        obtain rfl := Option.some.inj ht
        obtain ⟨hdone, herror⟩ := hok.delayed e (hdelayed ▸ List.mem_cons_self)
        refine h.commandFire hnext hcommands (h.allSettled hready) hc
          { c with delayed := delayed } rfl
          ⟨hok.leaf, hok.query, hok.timer, fun e' he' => ?_⟩ (fun _ => herror)
          fun _ => ⟨hdone, herror⟩
        exact hok.delayed e' (hdelayed ▸ List.mem_cons_of_mem _ he')
    · cases ht
  | die calls =>
    simp only [Hkd.perform] at ht
    split at ht
    · cases ht
    · obtain rfl := Option.some.inj ht
      refine (h.drop ?_).1
      rw [← List.drop_one, Nat.add_comm, ← List.drop_drop]
      exact List.drop_sublist _ _

end Loop

/-! ### Where handlers of machines are made -/

section Made

variable {next : Path → Event → Path}
  {commandNext : Commands.Path → Commands.Event → Commands.Path} {cfg : Config} {s t : Hkd}

@[simp] theorem push_made (f : Frame) : (s.push f).made = s.made := rfl

@[simp] theorem fire_made (e : Event) : (s.fire next e).made = s.made := by
  unfold Hkd.fire
  split
  · rfl
  · rfl

@[simp] theorem commandFire_made (c : CommandHandler) (e : Commands.Event) :
    (s.commandFire next commandNext c e).made = s.made := by
  unfold Hkd.commandFire
  split
  · rfl
  · dsimp only
    split
    · exact fire_made _
    · rfl

@[simp] theorem checkAllAgentsHaveStopped_made :
    (s.checkAllAgentsHaveStopped next).made = s.made := by
  unfold Hkd.checkAllAgentsHaveStopped
  split
  · exact fire_made _
  · rfl

theorem startWalk_made {w : Walk} {keys : List ℕ} (ht : s.startWalk w keys = some t) :
    t.made = s.made := by
  unfold Hkd.startWalk at ht
  split at ht
  · obtain rfl := Option.some.inj ht
    rfl
  · cases ht

theorem check_made {c : Choice} (ht : s.check next c = some t) : t.made = s.made := by
  cases c with
  | done | error =>
    obtain rfl := Option.some.inj ht
    exact fire_made _
  | _ => cases ht

theorem acquireFlock_made {c : Choice} (ht : s.acquireFlock next c = some t) :
    t.made = s.made := by
  cases c with
  | done | error =>
    obtain rfl := Option.some.inj ht
    exact fire_made _
  | waits =>
    obtain rfl := Option.some.inj ht
    rfl
  | _ => cases ht

theorem prepareStorage_made {c : Choice} (ht : s.prepareStorage next c = some t) :
    t.made = s.made := by
  unfold Hkd.prepareStorage at ht
  split at ht
  · obtain rfl := Option.some.inj ht
    rfl
  · obtain rfl := Option.some.inj ht
    rfl
  · exact check_made ht

theorem begin_made {m : Method} {c : Choice} (ht : s.begin next commandNext cfg m c = some t) :
    t.made = s.made := by
  cases m with
  | acquireHkdLock | acquireVmLock => exact acquireFlock_made ht
  | checkNetPorts | checkAddress | checkBridgeFw | setFwRules => exact check_made ht
  | prepareStorage => exact prepareStorage_made ht
  | stopAllL7rs | stopAllVms | killAllVms =>
    cases c with
    | keys keys => exact startWalk_made ht
    | _ => cases ht
  | stopVmCommandHandler =>
    obtain rfl := Option.some.inj ht
    unfold Hkd.stopVmCommandHandler
    split
    · exact fire_made _
    · exact commandFire_made _ _
  | catchZombieVms | stopL7rListener | stopAllAgents =>
    unfold Hkd.begin at ht
    dsimp only at ht
    split at ht <;>
    · obtain rfl := Option.some.inj ht
      simp
  | _ =>
    obtain rfl := Option.some.inj ht
    simp

/-- Whether a call makes handlers of machines. -/
def Frame.makes : Frame → Prop
  | .zombies _ | .commands _ _ => True
  | _ => False

theorem step_made {f : Frame} {c : Choice} (hf : ¬f.makes)
    (ht : s.step next commandNext cfg f c = some t) : t.made = s.made := by
  cases f with
  | enter m => exact begin_made ht
  | walk w keys count =>
    cases keys with
    | nil =>
      cases count with
      | zero =>
        obtain rfl := Option.some.inj ht
        exact fire_made _
      | succ count =>
        obtain rfl := Option.some.inj ht
        rfl
    | cons key keys =>
      simp only [Hkd.step] at ht
      split at ht <;>
      · obtain rfl := Option.some.inj ht
        rfl
  | vm call =>
    cases c with
    | stopped id =>
      obtain rfl := Option.some.inj ht
      unfold Hkd.onVmStopped
      dsimp only
      split <;> simp
    | goOn =>
      obtain rfl := Option.some.inj ht
      rfl
    | _ => cases ht
  | l7r =>
    cases c with
    | stopped pid =>
      obtain rfl := Option.some.inj ht
      unfold Hkd.onL7rStopped
      dsimp only
      split <;> simp
    | goOn =>
      obtain rfl := Option.some.inj ht
      rfl
    | _ => cases ht
  | l7rListener =>
    cases c with
    | stopped _ =>
      obtain rfl := Option.some.inj ht
      exact fire_made _
    | goOn =>
      obtain rfl := Option.some.inj ht
      rfl
    | _ => cases ht
  | agent =>
    cases c with
    | agentStopped name =>
      obtain rfl := Option.some.inj ht
      exact checkAllAgentsHaveStopped_made
    | goOn =>
      obtain rfl := Option.some.inj ht
      rfl
    | _ => cases ht
  | zombies rows => exact (hf trivial).elim
  | commands cmd rows => exact (hf trivial).elim
  | agents names =>
    cases names with
    | nil =>
      obtain rfl := Option.some.inj ht
      rfl
    | cons name names =>
      simp only [Hkd.step] at ht
      split at ht <;>
      · obtain rfl := Option.some.inj ht
        rfl

theorem occur_made {o : Occurrence} (ht : s.occur next commandNext o = some t) :
    t.made = s.made := by
  cases o with
  | run | event | query | cmd | postponed =>
    simp only [Hkd.occur] at ht
    split at ht
    · obtain rfl := Option.some.inj ht
      simp [Hkd.fireResult]
    · cases ht
  | callAfter c =>
    simp only [Hkd.occur] at ht
    split at ht
    · exact (acquireFlock_made ht :)
    · obtain rfl := Option.some.inj ht
      simp
    · exact (startWalk_made ht :)
    · cases ht
  | vm | l7r | agent | l7rConnection =>
    obtain rfl := Option.some.inj ht
    rfl
  | commandTimer =>
    obtain ⟨c, -, ht⟩ := Option.bind_eq_some_iff.mp ht
    split at ht
    · obtain rfl := Option.some.inj ht
      simp
    · cases ht
  | commandNotify =>
    obtain ⟨c, -, rfl⟩ := Option.map_eq_some_iff.mp ht
    exact commandFire_made _ _
  | commandQuery rows =>
    obtain ⟨c, -, ht⟩ := Option.bind_eq_some_iff.mp ht
    split at ht
    · obtain rfl := Option.some.inj ht
      unfold Hkd.commandQuery
      cases rows with
      | none => exact commandFire_made _ _
      | some rows => rfl
    · cases ht

/-- Only two calls make handlers of machines. -/
theorem perform_made {l : Label} (hnone : ∀ f ∈ s.stack, ¬f.makes)
    (ht : s.perform next commandNext cfg l = some t) : t.made = s.made := by
  cases l with
  | occur o =>
    simp only [Hkd.perform] at ht
    split at ht
    · exact occur_made ht
    · cases ht
  | call c =>
    simp only [Hkd.perform] at ht
    cases hstack : s.stack with
    | nil =>
      rw [hstack] at ht
      cases ht
    | cons f rest =>
      rw [hstack] at ht
      exact (step_made (hnone f (hstack ▸ List.mem_cons_self)) ht :)
  | resume =>
    simp only [Hkd.perform] at ht
    split at ht
    · obtain rfl := Option.some.inj ht
      simp
    · cases ht
  | resumeCommand =>
    simp only [Hkd.perform] at ht
    split at ht
    · obtain ⟨c, -, ht⟩ := Option.bind_eq_some_iff.mp ht
      split at ht
      · cases ht
      · obtain rfl := Option.some.inj ht
        exact commandFire_made _ _
    · cases ht
  | die calls =>
    simp only [Hkd.perform] at ht
    split at ht
    · cases ht
    · obtain rfl := Option.some.inj ht
      rfl

end Made

/-! ### The end of the daemon -/

section Shutdown

variable {next : Path → Event → Path}
  {commandNext : Commands.Path → Commands.Event → Commands.Path} {cfg : Config} {s t : Hkd}

/-- The handler of commands has told the daemon that it has stopped. -/
def Reported (s : Hkd) : Prop := ∃ c, s.commandHandler = some c ∧ c.path = [.stopped]

/-- The states after the machines are gone. -/
def goneStates : List Path :=
  [[.stopping, .stoppingAllAgents], [.stopping, .removingFwRules], [.stopped], [.exit]]

def VmsGone (s : Hkd) : Prop := s.path ∈ goneStates → s.vms = []

/-- No handler of a machine is made after the handler of commands has stopped. -/
def NoneMade (s : Hkd) (_ : Label) (t : Hkd) : Prop := Reported s → t.made = s.made

theorem inv_init : Inv {} where
  order :=
    { leaf := by decide +kernel
      early := fun _ => rfl
      absent := fun _ => rfl
      past := fun _ c hc => nomatch hc
      late := fun _ => rfl
      handler := fun c hc => nomatch hc }
  calls := calls_of_settled (fun f hf => absurd hf List.not_mem_nil)
    (fun f hf => absurd hf List.not_mem_nil) (Nat.zero_le _)
  watchers :=
    { query := fun h => nomatch h
      flock := fun h => nomatch h
      cmd := fun h => nomatch h
      postponed := fun h => nomatch h
      waiting := fun _ _ m hm => absurd hm List.not_mem_nil
      delayed := fun h => nomatch h }

theorem late_of_gone : ∀ path ∈ goneStates, Late path := by
  decide +kernel

theorem Inv.vmsGone (h : Inv s) : VmsGone s :=
  fun hpath => h.order.late (late_of_gone s.path hpath)

/-- A handler of commands that has stopped sends none, and there was none while the machines left
behind were looked after. -/
theorem Inv.noneMade (h : Inv s) {l : Label} (ht : s.perform next commandNext cfg l = some t) :
    NoneMade s l t := by
  rintro ⟨c, hc, hstopped⟩
  refine perform_made (fun f hf hmakes => ?_) ht
  have hframe := h.calls.frames f hf
  cases f with
  | zombies rows =>
    obtain ⟨-, -, hplace, -⟩ := places
    rw [h.order.absent (hframe.2.trans hplace.le)] at hc
    cases hc
  | commands cmd rows =>
    obtain ⟨other, hother, hloading⟩ := hframe
    rw [hc] at hother
    obtain rfl := Option.some.inj hother
    rw [hstopped] at hloading
    exact absurd hloading (by decide)
  | _ => exact hmakes

/-- Whatever happens in whatever order, the daemon comes to `stopping_all_agents` and what follows
only without handlers of machines, and makes none after the handler of commands has stopped. -/
theorem goes_after_its_vms (hnext : Follows hkd next)
    (hcommands : Follows Commands.table commandNext) {past : List (Hkd × Label)}
    (run : (hkdRuns next commandNext cfg).Run past s) :
    Always VmsGone past s ∧ EachTransition NoneMade past s := by
  have hinv : Always Inv past s := by
    refine run.always ?_ ?_
    · rintro s rfl
      exact inv_init
    · exact fun s l t h ht => h.perform hnext hcommands ht
  refine ⟨⟨hinv.1.vmsGone, fun e he => (hinv.2 e he).vmsGone⟩, ?_⟩
  exact run.eachTransition_of_always (fun s l t h ht => h.noneMade ht) hinv

/-! A run with a machine that is left behind, one that is started, and a stop that has to kill
it. -/

/-- Some steps one after the other. -/
def performAll (next : Path → Event → Path)
    (commandNext : Commands.Path → Commands.Event → Commands.Path) (cfg : Config) (s : Hkd) :
    List Label → Option Hkd
  | [] => some s
  | l :: labels => (s.perform next commandNext cfg l).bind fun s =>
      performAll next commandNext cfg s labels

theorem run_performAll {labels : List Label} {past : List (Hkd × Label)}
    (run : (hkdRuns next commandNext cfg).Run past s)
    (h : performAll next commandNext cfg s labels = some t) :
    ∃ past, (hkdRuns next commandNext cfg).Run past t := by
  induction labels generalizing past s with
  | nil =>
    obtain rfl := Option.some.inj h
    exact ⟨past, run⟩
  | cons l labels ih =>
    obtain ⟨u, hu, hrest⟩ := Option.bind_eq_some_iff.mp h
    exact ih (run.extend hu) hrest

def goOn (n : ℕ) : List Label := List.replicate n (.call .goOn)

def queried (rows : List ℕ) : List Label := [.occur (.query false rows), .call .goOn]

/-- Machine 7 was left behind and stops at once. -/
def startUp : List Label :=
  [.occur .run, .call .done, .call .done] ++ goOn 2 ++ queried [] ++
    [.occur (.event .onConfigReloadDone), .call .goOn, .occur (.query false [])] ++
    List.replicate 3 (.call .done) ++ goOn 2 ++ queried [] ++
    [.call .waits, .occur (.cmd false), .call .goOn, .call .done, .call .goOn] ++ queried [] ++
    [.occur (.event .onDbTicked), .call .goOn] ++ queried [] ++ queried [7] ++
    [.call .goOn, .call (.stopped 7)] ++ goOn 4 ++ queried []

/-- Machine 9 is started. -/
def startMachine : List Label :=
  [.occur .commandTimer, .occur (.commandQuery (some [])), .call .goOn,
    .occur (.commandQuery (some [9]))] ++ goOn 3

/-- It does not stop in time, and is killed. -/
def shutDown : List Label :=
  [.occur (.event .onCmdStop), .call .goOn, .call (.stopped 0)] ++ goOn 3 ++
    [.occur (.query false []), .call (.keys []), .call .goOn, .call (.keys [9])] ++ goOn 3 ++
    [.occur (.callAfter .goOn), .call (.keys [9]), .call .goOn, .call (.stopped 9)] ++ goOn 2 ++
    agentNames.flatMap fun name =>
      if name = .vhciHandler then goOn 1
      else [.call (.agentStopped name)] ++ goOn 2

theorem goes_after_its_vms_killed : ∃ (past : List (Hkd × Label)) (s : Hkd),
    s.path = [.stopped] ∧ s.made = 2 ∧ Always VmsGone past s ∧ EachTransition NoneMade past s := by
  have hrun : ((performAll (hkd.next 3) (Commands.table.next 2) ⟨true, false⟩ {}
      (startUp ++ startMachine ++ shutDown)).any fun s =>
        decide (s.path = [.stopped] ∧ s.made = 2)) = true := by
    decide +kernel
  obtain ⟨s, hs, hend⟩ := (Option.any_eq_true _ _).mp hrun
  obtain ⟨hpath, hmade⟩ := of_decide_eq_true hend
  obtain ⟨past, run⟩ := run_performAll (System.Run.start rfl) hs
  exact ⟨past, s, hpath, hmade,
    goes_after_its_vms (follows_next hkd_total) (follows_next Commands.total) run⟩

end Shutdown

end Qvd.HkdShutdown
