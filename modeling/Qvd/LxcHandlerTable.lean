import Qvd.StateTable

/-!
The state tables of the LXC machine handler and of its file system agent, in the order
of their declaration.
-/
namespace Qvd.LxcHandlerTable

open StateTable

/-- The single words state names are made of. -/
inductive Name
  | new | starting | running | debugging | stopping | stopped | zombie | dirty
  | db | loadingRow | searchingDi | checkingHypervisor | calculatingAttrs
  | savingRuntimeRow | updatingStats
  | cleanOld | killingLxc | unlinkingIface | removingFwRules | unmountingFilesystems
  | osFs | heavy | unheavy
  | setup | allocatingHomeFs | configuringDhcpd | configuringUsbip | creatingLxc
  | runningPrestartHook | settingFwRules | launching | waitingForVma
  | savingState | runningPoststartHook | monitoring | expiring
  | shutdown | shuttingdown | waitingForLxc | stop | runningStop
  | cleanup | checkingDirty | releasingCpuset | runningPoststopHook | destroyingLxc
  | config | delaying | reap | checkingLxc | stoppingLxc | clearingRuntimeRow
deriving DecidableEq, Repr

inductive Event
  | onDone | onError
  | onCmdStart | onCmdStop | onCmdCatchZombie
  | onHkdStop | onHkdKill | onExpired
  | onLxcDone | onDirty | onAlive | onDead | onGotoDebug
  | onStateTimeout | onTimeout
deriving DecidableEq, Repr

def Event.all : List Event :=
  [.onDone, .onError, .onCmdStart, .onCmdStop, .onCmdCatchZombie, .onHkdStop, .onHkdKill,
    .onExpired, .onLxcDone, .onDirty, .onAlive, .onDead, .onGotoDebug, .onStateTimeout,
    .onTimeout]

theorem Event.mem_all (e : Event) : e ∈ Event.all := by
  cases e <;> decide

inductive Method
  | loadRow | searchDi | checkHypervisor | calculateAttrs | saveRuntimeRow | incrRunAttempts
  | killLxc | unlinkIface | removeFwRules | unmountFilesystems
  | startOsFs | heavyDown | heavyUp
  | allocateHomeFs | addToDhcpd | requestVhciHub | createLxc | runPrestartHook | setFwRules
  | startLxc | startVmaMonitor
  | saveState | incrRunOk | runPoststartHook | expire
  | shutdown | setStateTimer | stopLxc
  | checkDirtyFlag | releaseCpuset | runPoststopHook | destroyLxc | rmFromDhcpd
  | returnVhciHub | clearRuntimeRow | onStopped | checkLxc
deriving DecidableEq, Repr

abbrev Path := List Name

def lxc : Table Name Event Method := [
  { name := []
    ignore := [.onCmdStart, .onExpired, .onLxcDone]
    delay := [.onHkdKill, .onCmdStop]
    on := [(.onHkdStop, .onHkdKill)]
    transitions := [(.onDirty, { path := [.dirty] })] },

  { name := [.new]
    transitions := [(.onCmdStart, { path := [.starting] }),
      (.onCmdStop, { path := [.stopping, .db] }),
      (.onCmdCatchZombie, { path := [.zombie] })] },

  { name := [.starting], advance := some .onDone, on := [(.onHkdKill, .onError)] },
  { name := [.starting, .db]
    transitions := [(.onError, { path := [.stopping, .db] })] },
  { name := [.starting, .db, .loadingRow], enter := some .loadRow },
  { name := [.starting, .db, .searchingDi], enter := some .searchDi },
  { name := [.starting, .db, .checkingHypervisor], enter := some .checkHypervisor },
  { name := [.starting, .db, .calculatingAttrs], enter := some .calculateAttrs },
  { name := [.starting, .db, .savingRuntimeRow], enter := some .saveRuntimeRow },
  { name := [.starting, .db, .updatingStats], enter := some .incrRunAttempts },
  { name := [.starting, .cleanOld]
    transitions := [(.onError, { path := [.zombie, .reap] }),
      (.onHkdKill, { path := [.stopping, .db] })] },
  { name := [.starting, .cleanOld, .killingLxc], enter := some .killLxc },
  { name := [.starting, .cleanOld, .unlinkingIface], enter := some .unlinkIface },
  { name := [.starting, .cleanOld, .removingFwRules], enter := some .removeFwRules },
  { name := [.starting, .cleanOld, .unmountingFilesystems]
    enter := some .unmountFilesystems },
  { name := [.starting, .osFs], enter := some .startOsFs
    transitions := [(.onError, { path := [.stopping, .osFs] })] },
  { name := [.starting, .heavy], enter := some .heavyDown
    transitions := [(.onError, { path := [.stopping, .osFs] }),
      (.onCmdStop, { path := [.stopping, .osFs] })] },
  { name := [.starting, .setup]
    transitions := [(.onError, { path := [.stopping, .cleanup] })] },
  { name := [.starting, .setup, .allocatingHomeFs], enter := some .allocateHomeFs },
  { name := [.starting, .setup, .configuringDhcpd], enter := some .addToDhcpd },
  { name := [.starting, .setup, .configuringUsbip], enter := some .requestVhciHub },
  { name := [.starting, .setup, .creatingLxc], enter := some .createLxc },
  { name := [.starting, .setup, .runningPrestartHook], enter := some .runPrestartHook },
  { name := [.starting, .setup, .settingFwRules], enter := some .setFwRules },
  { name := [.starting, .setup, .launching], enter := some .startLxc },
  { name := [.starting, .waitingForVma], enter := some .startVmaMonitor
    transitions := [(.onAlive, { path := [.running] }),
      (.onDead, { path := [.stopping, .stop] }),
      (.onCmdStop, { path := [.stopping, .stop] }),
      (.onLxcDone, { path := [.stopping, .cleanup] }),
      (.onHkdKill, { path := [.stopping, .stop] }),
      (.onGotoDebug, { path := [.debugging] })] },

  { name := [.running], advance := some .onDone, delay := [.onLxcDone]
    transitions := [(.onError, { path := [.stopping, .stop] })] },
  { name := [.running, .savingState], enter := some .saveState },
  { name := [.running, .updatingStats], enter := some .incrRunOk },
  { name := [.running, .runningPoststartHook], enter := some .runPoststartHook },
  { name := [.running, .unheavy], enter := some .heavyUp },
  { name := [.running, .monitoring], enter := some .startVmaMonitor
    ignore := [.onAlive]
    transitions := [(.onDead, { path := [.stopping, .stop] }),
      (.onCmdStop, { path := [.stopping, .shutdown] }),
      (.onLxcDone, { path := [.stopping, .cleanup] }),
      (.onHkdKill, { path := [.stopping, .stop] }),
      (.onGotoDebug, { path := [.debugging] }),
      (.onExpired, { path := [.expiring] })] },
  { name := [.running, .expiring], secondary := true, enter := some .expire
    transitions := [(.onDone, { path := [.monitoring] })] },

  { name := [.debugging], advance := some .onDone, delay := [.onLxcDone]
    transitions := [(.onError, { path := [.stopping, .stop] })] },
  { name := [.debugging, .savingState], enter := some .saveState },
  { name := [.debugging, .unheavy], enter := some .heavyUp },
  { name := [.debugging, .monitoring], enter := some .startVmaMonitor
    ignore := [.onDead, .onGotoDebug]
    transitions := [(.onAlive, { path := [.running] }),
      (.onCmdStop, { path := [.stopping, .stop] }),
      (.onLxcDone, { path := [.stopping, .cleanup] }),
      (.onHkdKill, { path := [.stopping, .stop] })] },

  { name := [.stopping], advance := some .onDone, delay := [.onLxcDone]
    transitions := [(.onError, { path := [.zombie, .reap] })] },
  { name := [.stopping, .shutdown]
    transitions := [(.onHkdKill, { path := [.stop] })] },
  { name := [.stopping, .shutdown, .savingState], enter := some .saveState },
  { name := [.stopping, .shutdown, .heavy], enter := some .heavyDown },
  { name := [.stopping, .shutdown, .shuttingdown], enter := some .shutdown
    transitions := [(.onError, { path := [.stop] }), (.onLxcDone, { path := [.cleanup] })] },
  { name := [.stopping, .shutdown, .waitingForLxc], enter := some .setStateTimer
    transitions := [(.onLxcDone, { path := [.cleanup] }),
      (.onStateTimeout, { path := [.stop] })] },
  { name := [.stopping, .stop] },
  { name := [.stopping, .stop, .savingState], enter := some .saveState },
  { name := [.stopping, .stop, .heavy], enter := some .heavyDown },
  { name := [.stopping, .stop, .runningStop], enter := some .stopLxc },
  { name := [.stopping, .stop, .waitingForLxc], enter := some .setStateTimer
    transitions := [(.onLxcDone, { path := [.cleanup] }),
      (.onStateTimeout, { path := [.cleanup] })] },
  { name := [.stopping, .cleanup], ignore := [.onLxcDone] },
  { name := [.stopping, .cleanup, .savingState], enter := some .saveState },
  { name := [.stopping, .cleanup, .checkingDirty], enter := some .checkDirtyFlag },
  { name := [.stopping, .cleanup, .heavy], enter := some .heavyDown },
  { name := [.stopping, .cleanup, .killingLxc], enter := some .killLxc },
  { name := [.stopping, .cleanup, .releasingCpuset], enter := some .releaseCpuset },
  { name := [.stopping, .cleanup, .unlinkingIface], enter := some .unlinkIface },
  { name := [.stopping, .cleanup, .removingFwRules], enter := some .removeFwRules },
  { name := [.stopping, .cleanup, .runningPoststopHook], enter := some .runPoststopHook
    transitions := [(.onError, { path := [.destroyingLxc] })] },
  { name := [.stopping, .cleanup, .destroyingLxc], enter := some .destroyLxc },
  { name := [.stopping, .cleanup, .configuringDhcpd], enter := some .rmFromDhcpd },
  { name := [.stopping, .cleanup, .configuringUsbip], enter := some .returnVhciHub },
  { name := [.stopping, .osFs], enter := some .unmountFilesystems },
  { name := [.stopping, .db], enter := some .clearRuntimeRow
    transitions := [(.onError, { path := [.zombie, .db] }),
      (.onDone, { path := [.stopped] })] },

  { name := [.stopped], enter := some .onStopped },

  { name := [.zombie], advance := some .onDone, delay := [.onLxcDone]
    ignore := [.onHkdStop]
    transitions := [(.onHkdKill, { path := [.stopped] })] },
  { name := [.zombie, .config]
    transitions := [(.onError, { path := [.delaying] })] },
  { name := [.zombie, .config, .savingState], enter := some .saveState
    on := [(.onError, .onDone)] },
  { name := [.zombie, .config, .calculatingAttrs], enter := some .calculateAttrs
    transitions := [(.onError, { path := [.delaying] })] },
  { name := [.zombie, .config, .delaying], secondary := true, enter := some .setStateTimer
    transitions := [(.onTimeout, { path := [.config] })] },
  { name := [.zombie, .reap]
    transitions := [(.onError, { path := [.delaying] })] },
  { name := [.zombie, .reap, .savingState], enter := some .saveState
    on := [(.onError, .onDone)] },
  { name := [.zombie, .reap, .checkingDirty], enter := some .checkDirtyFlag
    transitions := [(.onError, { path := [.dirty], absolute := true })] },
  { name := [.zombie, .reap, .heavy], enter := some .heavyDown },
  { name := [.zombie, .reap, .checkingLxc], enter := some .checkLxc
    transitions := [(.onError, { path := [.killingLxc] })] },
  { name := [.zombie, .reap, .stoppingLxc], enter := some .stopLxc },
  { name := [.zombie, .reap, .waitingForLxc], enter := some .setStateTimer
    transitions := [(.onLxcDone, { path := [.killingLxc] }),
      (.onStateTimeout, { path := [.killingLxc] })] },
  { name := [.zombie, .reap, .killingLxc], enter := some .killLxc },
  { name := [.zombie, .reap, .releasingCpuset], enter := some .releaseCpuset },
  { name := [.zombie, .reap, .unlinkingIface], enter := some .unlinkIface },
  { name := [.zombie, .reap, .removingFwRules], enter := some .removeFwRules },
  { name := [.zombie, .reap, .destroyingLxc], enter := some .destroyLxc
    transitions := [(.onError, { path := [.unmountingFilesystems] })] },
  { name := [.zombie, .reap, .unmountingFilesystems], enter := some .unmountFilesystems },
  { name := [.zombie, .reap, .unheavy], enter := some .heavyUp },
  { name := [.zombie, .reap, .configuringDhcpd], enter := some .rmFromDhcpd },
  { name := [.zombie, .reap, .configuringUsbip], enter := some .returnVhciHub },
  { name := [.zombie, .reap, .delaying], secondary := true, enter := some .setStateTimer
    transitions := [(.onStateTimeout, { path := [.reap] })] },
  { name := [.zombie, .db]
    transitions := [(.onError, { path := [.delaying] })] },
  { name := [.zombie, .db, .clearingRuntimeRow], enter := some .clearRuntimeRow
    transitions := [(.onDone, { path := [.stopped] })] },
  { name := [.zombie, .db, .delaying], secondary := true, enter := some .setStateTimer
    transitions := [(.onStateTimeout, { path := [.db] })] },

  { name := [.dirty], ignore := [.onHkdStop]
    transitions := [(.onHkdKill, { path := [.stopped] })] }]

namespace Fs

inductive Name
  | new | base | workdir | overlay | root | running | aborting | aborted
  | locking | checkingDir | unpacking | findingTmpDir | makingTmpDir | untaring | placing
  | analyze | unlocking | removingOld | making | deletingTmpDir
deriving DecidableEq, Repr

inductive Event
  | onRun | onDone | onError
deriving DecidableEq, Repr

inductive Method
  | lockOsImage | checkBaseDir | findTmpDirForOsImage | makeTmpDirForOsImage | untarOsImage
  | placeOsImage | analyzeOsImage | unlockOsImage
  | removeOldWorkdir | makeWorkdir | removeOldOverlay | makeOverlay | makeRoot
  | tellRunning | deleteTmp | tellError
deriving DecidableEq, Repr

def table : Table Name Event Method := [
  { name := [], advance := some .onDone
    transitions := [(.onError, { path := [.aborting] })] },
  { name := [.new], transitions := [(.onRun, { path := [.base] })] },
  { name := [.base] },
  { name := [.base, .locking], enter := some .lockOsImage },
  { name := [.base, .checkingDir], enter := some .checkBaseDir
    transitions := [(.onError, { path := [.unpacking] })] },
  { name := [.base, .unpacking], secondary := true },
  { name := [.base, .unpacking, .findingTmpDir], enter := some .findTmpDirForOsImage },
  { name := [.base, .unpacking, .makingTmpDir], enter := some .makeTmpDirForOsImage },
  { name := [.base, .unpacking, .untaring], enter := some .untarOsImage },
  { name := [.base, .unpacking, .placing], enter := some .placeOsImage },
  { name := [.base, .analyze], enter := some .analyzeOsImage },
  { name := [.base, .unlocking], enter := some .unlockOsImage },
  { name := [.workdir] },
  { name := [.workdir, .removingOld], enter := some .removeOldWorkdir },
  { name := [.workdir, .making], enter := some .makeWorkdir },
  { name := [.overlay] },
  { name := [.overlay, .removingOld], enter := some .removeOldOverlay },
  { name := [.overlay, .making], enter := some .makeOverlay },
  { name := [.root], enter := some .makeRoot },
  { name := [.running], enter := some .tellRunning },
  { name := [.aborting], on := [(.onError, .onDone)] },
  { name := [.aborting, .unlocking], enter := some .unlockOsImage },
  { name := [.aborting, .deletingTmpDir], enter := some .deleteTmp },
  { name := [.aborted], enter := some .tellError }]

end Fs

theorem fs_total : Fs.table.Total 2 := by
  intro path hpath e
  have hall : ∀ path ∈ Fs.table.leaves, ∀ e ∈ [Fs.Event.onRun, .onDone, .onError],
      (Fs.table.react 2 path e).isSome = true := by
    decide +kernel
  exact hall path hpath e (by cases e <;> decide)

theorem lxc_total : lxc.Total 3 := by
  intro path hpath e
  have hall : ∀ path ∈ lxc.leaves, ∀ e ∈ Event.all, (lxc.react 3 path e).isSome = true := by
    decide +kernel
  exact hall path hpath e (Event.mem_all e)

theorem lxc_follows : Follows lxc (lxc.next 3) := follows_next lxc_total

theorem lxc_wellFormed : lxc.WellFormed where
  primary := by decide +kernel
  absolute := by decide
  depth := by decide
  named := by decide

end Qvd.LxcHandlerTable
