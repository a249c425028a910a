import Qvd.StateTable

/-!
The state tables of the HKD and of its handler of commands for machines, in the order of their
declaration.
-/
namespace Qvd.HkdTable

open StateTable

/-- The single words state names are made of. -/
inductive Name
  | new | starting | running | stopping | stopped | exit
  | zero | acquiringHkdLock | acquiringVmLock | connectingToDb | checkingDbVersion
  | loadingDbConfig | loadingHostRow | checkingNetPorts | checkingAddress | checkingBridgeFw
  | startingHypervisor
  | setup | savingState | settingProcessLimits | preparingStorage | removingOldFwRules
  | settingFwRules | savingLoadbalData | ticking | cleaningupZombieL7rs | searchingZombieVms
  | catchingZombieVms | agents | main
  | stoppingL7rListener | stoppingVmCommandHandler | stoppingAllL7rs | stoppingAllVms
  | killingAllVms | stoppingAllAgents | removingFwRules
deriving DecidableEq, Repr

inductive Event
  | onDone | onError | onRun | onCmdStop
  | onDeadDb | onTickerError | onDbTicked | onTransientDbError | onConfigReloadDone
  | onNoVmsAreRunning | onNoL7rsAreRunning | onL7rListenerStopped | onVmCommandHandlerStopped
  | onAllAgentsStopped | onStateTimeout
deriving DecidableEq, Repr

def Event.all : List Event :=
  [.onDone, .onError, .onRun, .onCmdStop, .onDeadDb, .onTickerError, .onDbTicked,
    .onTransientDbError, .onConfigReloadDone, .onNoVmsAreRunning, .onNoL7rsAreRunning,
    .onL7rListenerStopped, .onVmCommandHandlerStopped, .onAllAgentsStopped, .onStateTimeout]

theorem Event.mem_all (e : Event) : e ∈ Event.all := by
  cases e <;> decide

inductive Method
  | acquireHkdLock | acquireVmLock | startDb | checkDbVersion | startConfig | loadHostRow
  | checkNetPorts | checkAddress | checkBridgeFw | startHypervisor
  | saveState | setProcessLimits | prepareStorage | removeFwRules | setFwRules
  | saveLoadbalData | startTicker | cleanupZombieL7rs | searchZombieVms | catchZombieVms
  | startAgents | startLaterAgents
  | stopL7rListener | stopVmCommandHandler | stopAllL7rs | stopAllVms | killAllVms
  | stopAllAgents | sayGoodbye
deriving DecidableEq, Repr

abbrev Path := List Name

/-- The HKD. What is called before an event does not touch the state and is left out. -/
def hkd : Table Name Event Method := [
  { name := [], advance := some .onDone
    on := [(.onDeadDb, .onError), (.onTickerError, .onError)]
    ignore := [.onDbTicked, .onTransientDbError, .onConfigReloadDone, .onNoVmsAreRunning,
      .onNoL7rsAreRunning]
    delay := [.onCmdStop] },

  { name := [.new], transitions := [(.onRun, { path := [.starting] })] },

  { name := [.starting] },
  { name := [.starting, .zero]
    transitions := [(.onError, { path := [.exit] }), (.onCmdStop, { path := [.exit] })] },
  { name := [.starting, .zero, .acquiringHkdLock], enter := some .acquireHkdLock },
  { name := [.starting, .zero, .acquiringVmLock], enter := some .acquireVmLock },
  { name := [.starting, .zero, .connectingToDb], enter := some .startDb },
  { name := [.starting, .zero, .checkingDbVersion], enter := some .checkDbVersion },
  { name := [.starting, .zero, .loadingDbConfig], enter := some .startConfig
    on := [(.onConfigReloadDone, .onDone)] },
  { name := [.starting, .zero, .loadingHostRow], enter := some .loadHostRow },
  { name := [.starting, .zero, .checkingNetPorts], enter := some .checkNetPorts },
  { name := [.starting, .zero, .checkingAddress], enter := some .checkAddress },
  { name := [.starting, .zero, .checkingBridgeFw], enter := some .checkBridgeFw },
  { name := [.starting, .zero, .startingHypervisor], enter := some .startHypervisor },

  { name := [.starting, .setup]
    transitions := [(.onError, { path := [.stopping] }), (.onCmdStop, { path := [.stopping] })] },
  { name := [.starting, .setup, .savingState], enter := some .saveState },
  { name := [.starting, .setup, .settingProcessLimits], enter := some .setProcessLimits },
  { name := [.starting, .setup, .preparingStorage], enter := some .prepareStorage },
  { name := [.starting, .setup, .removingOldFwRules], enter := some .removeFwRules },
  { name := [.starting, .setup, .settingFwRules], enter := some .setFwRules },
  { name := [.starting, .setup, .savingLoadbalData], enter := some .saveLoadbalData },
  { name := [.starting, .setup, .ticking], enter := some .startTicker
    on := [(.onDbTicked, .onDone)] },
  { name := [.starting, .setup, .cleaningupZombieL7rs], enter := some .cleanupZombieL7rs },
  { name := [.starting, .setup, .searchingZombieVms], enter := some .searchZombieVms },
  { name := [.starting, .setup, .catchingZombieVms], enter := some .catchZombieVms
    on := [(.onNoVmsAreRunning, .onDone)] },
  { name := [.starting, .setup, .agents], enter := some .startAgents },

  { name := [.running], transitions := [(.onError, { path := [.stopping] })] },
  { name := [.running, .savingState], enter := some .saveState },
  { name := [.running, .agents], enter := some .startLaterAgents },
  { name := [.running, .main], on := [(.onCmdStop, .onDone)] },

  { name := [.stopping], on := [(.onError, .onDone)], ignore := [.onTickerError, .onDeadDb] },
  { name := [.stopping, .stoppingL7rListener], enter := some .stopL7rListener
    on := [(.onL7rListenerStopped, .onDone)] },
  { name := [.stopping, .stoppingVmCommandHandler], enter := some .stopVmCommandHandler
    on := [(.onVmCommandHandlerStopped, .onDone)] },
  { name := [.stopping, .savingState], enter := some .saveState },
  { name := [.stopping, .stoppingAllL7rs], enter := some .stopAllL7rs
    on := [(.onNoL7rsAreRunning, .onDone), (.onStateTimeout, .onError)] },
  { name := [.stopping, .stoppingAllVms], enter := some .stopAllVms
    on := [(.onNoVmsAreRunning, .onDone), (.onStateTimeout, .onError)]
    transitions := [(.onError, { path := [.killingAllVms] })] },
  { name := [.stopping, .killingAllVms], secondary := true, enter := some .killAllVms
    on := [(.onNoVmsAreRunning, .onDone)] },
  { name := [.stopping, .stoppingAllAgents], enter := some .stopAllAgents
    on := [(.onAllAgentsStopped, .onDone)] },
  { name := [.stopping, .removingFwRules], enter := some .removeFwRules },

  { name := [.stopped], enter := some .saveState, on := [(.onError, .onDone)] },
  { name := [.exit], enter := some .sayGoodbye }]

theorem hkd_total : hkd.Total 3 := by
  intro path hpath e
  have hall : ∀ path ∈ hkd.leaves, ∀ e ∈ Event.all, (hkd.react 3 path e).isSome = true := by
    decide +kernel
  exact hall path hpath e (Event.mem_all e)

theorem hkd_wellFormed : hkd.WellFormed where
  primary := by decide +kernel
  absolute := by decide
  depth := by decide
  named := by decide

/-! ### The order of the states -/

section Order

/-- The states without substates in the order of their declaration. -/
def place (path : Path) : ℕ := hkd.leaves.idxOf path

def preparingStorage : Path := [.starting, .setup, .preparingStorage]

def catchingZombieVms : Path := [.starting, .setup, .catchingZombieVms]

def runningSavingState : Path := [.running, .savingState]

def runningAgents : Path := [.running, .agents]

def stoppingVmCommandHandler : Path := [.stopping, .stoppingVmCommandHandler]

def stoppingAllVms : Path := [.stopping, .stoppingAllVms]

def killingAllVms : Path := [.stopping, .killingAllVms]

/-- Before the machines that were left behind are looked after. -/
def Early (path : Path) : Prop := place path < place catchingZombieVms

/-- While they are, and until the state is saved after that. -/
def Catching (path : Path) : Prop :=
  place catchingZombieVms ≤ place path ∧ place path ≤ place runningSavingState

def Stopping (path : Path) : Prop := place [.stopping, .stoppingL7rListener] ≤ place path

/-- After the handler of commands has been stopped. -/
def Past (path : Path) : Prop := place [.stopping, .savingState] ≤ place path

/-- From `stopping_all_agents` on. -/
def Late (path : Path) : Prop := place [.stopping, .stoppingAllAgents] ≤ place path

instance (path : Path) : Decidable (Early path) := inferInstanceAs (Decidable (_ < _))

instance (path : Path) : Decidable (Catching path) := inferInstanceAs (Decidable (_ ∧ _))

instance (path : Path) : Decidable (Stopping path) := inferInstanceAs (Decidable (_ ≤ _))

instance (path : Path) : Decidable (Past path) := inferInstanceAs (Decidable (_ ≤ _))

instance (path : Path) : Decidable (Late path) := inferInstanceAs (Decidable (_ ≤ _))

/-- The events that agents of the daemon, or the daemon itself, raise while a call goes on. -/
def innerEvents : List Event :=
  [.onNoVmsAreRunning, .onNoL7rsAreRunning, .onL7rListenerStopped, .onVmCommandHandlerStopped,
    .onAllAgentsStopped]

/-- What is needed of the transitions of the table. -/
structure EdgeOk (p : Path) (e : Event) (q : Path) : Prop where
  forward : place p ≤ place q
  late : Late q → Late p ∨ Early p ∨
    (p ∈ [stoppingAllVms, killingAllVms] ∧ e ∈ [Event.onDone, .onError, .onNoVmsAreRunning])
  past : Past q → Past p ∨ Early p ∨
    (p = stoppingVmCommandHandler ∧ e ∈ [Event.onDone, .onError, .onVmCommandHandlerStopped])
  catching : Catching p → e ∈ innerEvents ∨ (e = .onDone ∧ p ≠ runningSavingState) → Catching q
  storage : p = preparingStorage → e ≠ .onDone → Stopping q

set_option synthInstance.maxSize 400 in
instance (p : Path) (e : Event) (q : Path) : Decidable (EdgeOk p e q) :=
  decidable_of_iff (_ ∧ _ ∧ _ ∧ _ ∧ _)
    ⟨fun ⟨h1, h2, h3, h4, h5⟩ => ⟨h1, h2, h3, h4, h5⟩,
      fun h => ⟨h.forward, h.late, h.past, h.catching, h.storage⟩⟩

theorem edges_ok : ∀ p ∈ hkd.leaves, ∀ e ∈ Event.all,
    hkd.next 3 p e = p ∨ EdgeOk p e (hkd.next 3 p e) := by
  decide +kernel

/-- The order of the states that are named here. -/
theorem places : place preparingStorage < place catchingZombieVms ∧
    place catchingZombieVms < place runningSavingState ∧
    place runningSavingState < place runningAgents ∧
    place runningAgents < place [.stopping, .stoppingL7rListener] ∧
    place [.stopping, .stoppingL7rListener] < place [.stopping, .savingState] ∧
    place [.stopping, .savingState] < place [.stopping, .stoppingAllAgents] := by
  decide +kernel

/-- The methods of the states where a wrong event would do harm. -/
theorem methods_ok : hkd.methodAt stoppingAllVms = some .stopAllVms ∧
    hkd.methodAt killingAllVms = some .killAllVms ∧
    hkd.methodAt stoppingVmCommandHandler = some .stopVmCommandHandler ∧
    hkd.methodAt runningSavingState = some .saveState ∧
    hkd.methodAt preparingStorage = some .prepareStorage := by
  decide +kernel

theorem methods_early : ∀ p ∈ hkd.leaves, hkd.methodAt p ∈ [some Method.acquireHkdLock,
    some .acquireVmLock, some .checkNetPorts, some .checkAddress, some .checkBridgeFw,
    some .setFwRules, some .prepareStorage] → Early p := by
  decide +kernel

theorem method_states : ∀ p ∈ hkd.leaves,
    (hkd.methodAt p = some .prepareStorage → p = preparingStorage) ∧
    (hkd.methodAt p = some .catchZombieVms → p = catchingZombieVms) ∧
    (hkd.methodAt p = some .startLaterAgents → p = runningAgents) ∧
    (hkd.methodAt p = some .stopVmCommandHandler → p = stoppingVmCommandHandler) := by
  decide +kernel

/-- A stop is delayed from running on, and before the start. -/
theorem delayed_stop : ∀ p ∈ hkd.leaves, ∀ e ∈ Event.all,
    ((hkd.declared p e).any fun d => d.2 matches .delay) = true →
      e = .onCmdStop ∧ (p = [.new] ∨ place runningSavingState ≤ place p) := by
  decide +kernel

theorem next_onCmdStop : ∀ p ∈ hkd.leaves, Catching p → place runningSavingState ≤ place p →
    hkd.next 3 p .onCmdStop = p := by
  decide +kernel

theorem next_runningAgents : hkd.next 3 runningAgents .onDone ≠ runningAgents ∧
    place runningAgents < place (hkd.next 3 runningAgents .onDone) ∧
    ¬Past (hkd.next 3 runningAgents .onDone) := by
  decide +kernel

end Order

/-! ### The handler of commands for machines -/

namespace Commands

inductive Name
  | new | loading | stops | starts | idle | stopped
deriving DecidableEq, Repr

inductive Event
  | onRun | onDone | onError | onHkdStop | onTimeout | onQvdCmdForVmNotify
deriving DecidableEq, Repr

def Event.all : List Event :=
  [.onRun, .onDone, .onError, .onHkdStop, .onTimeout, .onQvdCmdForVmNotify]

theorem Event.mem_all (e : Event) : e ∈ Event.all := by
  cases e <;> decide

inductive Method
  | loadStopCmds | loadStartCmds | setTimer | onStopped
deriving DecidableEq, Repr

abbrev Path := List Name

/-- The commands are sent before the machine takes up `onDone`. -/
def table : Table Name Event Method := [
  { name := [], advance := some .onDone, delay := [.onQvdCmdForVmNotify]
    transitions := [(.onError, { path := [.idle] }), (.onHkdStop, { path := [.stopped] })] },
  { name := [.new], transitions := [(.onRun, { path := [.idle] })] },
  { name := [.loading], delay := [.onHkdStop] },
  { name := [.loading, .stops], enter := some .loadStopCmds },
  { name := [.loading, .starts], enter := some .loadStartCmds },
  { name := [.idle], enter := some .setTimer
    transitions := [(.onTimeout, { path := [.loading] }),
      (.onQvdCmdForVmNotify, { path := [.loading] })] },
  { name := [.stopped], enter := some .onStopped }]

theorem total : table.Total 2 := by
  intro path hpath e
  have hall : ∀ path ∈ table.leaves, ∀ e ∈ Event.all, (table.react 2 path e).isSome = true := by
    decide +kernel
  exact hall path hpath e (Event.mem_all e)

theorem wellFormed : table.WellFormed where
  primary := by decide +kernel
  absolute := by decide
  depth := by decide
  named := by decide

/-- The states in which a query runs or commands are sent. -/
def loading : List Path := [[.loading, .stops], [.loading, .starts]]

structure EdgeOk (p : Path) (e : Event) (q : Path) : Prop where
  stopped : p = [.stopped] → e = .onError
  loading : p ∈ loading → e = .onDone ∨ e = .onError

instance (p : Path) (e : Event) (q : Path) : Decidable (EdgeOk p e q) :=
  decidable_of_iff (_ ∧ _) ⟨fun ⟨h1, h2⟩ => ⟨h1, h2⟩, fun h => ⟨h.stopped, h.loading⟩⟩

theorem edges_ok : ∀ p ∈ table.leaves, ∀ e ∈ Event.all,
    table.next 2 p e = p ∨ EdgeOk p e (table.next 2 p e) := by
  decide +kernel

theorem methods_ok : ∀ p ∈ table.leaves,
    (table.methodAt p ∈ [some Method.loadStopCmds, some .loadStartCmds] → p ∈ loading) ∧
    (table.methodAt p = some .setTimer → p = [.idle]) ∧
    (table.methodAt p = some .onStopped ↔ p = [.stopped]) := by
  decide +kernel

theorem delayed_events : ∀ p ∈ table.leaves, ∀ e ∈ Event.all,
    ((table.declared p e).any fun d => d.2 matches .delay) = true → e ≠ .onDone ∧ e ≠ .onError := by
  decide +kernel

end Commands

end Qvd.HkdTable
