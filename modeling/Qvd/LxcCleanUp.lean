import Qvd.LxcHandlerTable

/-!
The order of the clean-up in the table of the LXC handler: where the container has been
killed, where its file systems have been unmounted as well, and where neither was tried.
-/
namespace Qvd.LxcCleanUp

open StateTable LxcHandlerTable

/-- The events that take the handler to the database before it has cleaned anything. -/
def skipsCleanUp (path : Path) (e : Event) : Bool :=
  (path = [.new] && e = .onCmdStop) ||
    ([.starting, .db].isPrefixOf path && (e = .onError || e = .onHkdKill || e = .onHkdStop)) ||
    ([.starting, .cleanOld].isPrefixOf path && (e = .onHkdKill || e = .onHkdStop))

/-- The states a handler is in only once the container is killed. -/
def killedStates : List Path := [
  [.starting, .cleanOld, .unlinkingIface], [.starting, .cleanOld, .removingFwRules],
  [.starting, .cleanOld, .unmountingFilesystems], [.starting, .osFs], [.starting, .heavy],
  [.starting, .setup, .allocatingHomeFs], [.starting, .setup, .configuringDhcpd],
  [.starting, .setup, .configuringUsbip], [.starting, .setup, .creatingLxc],
  [.starting, .setup, .runningPrestartHook], [.starting, .setup, .settingFwRules],
  [.starting, .setup, .launching],
  [.stopping, .cleanup, .releasingCpuset], [.stopping, .cleanup, .unlinkingIface],
  [.stopping, .cleanup, .removingFwRules], [.stopping, .cleanup, .runningPoststopHook],
  [.stopping, .cleanup, .destroyingLxc], [.stopping, .cleanup, .configuringDhcpd],
  [.stopping, .cleanup, .configuringUsbip], [.stopping, .osFs], [.stopping, .db],
  [.zombie, .reap, .releasingCpuset], [.zombie, .reap, .unlinkingIface],
  [.zombie, .reap, .removingFwRules], [.zombie, .reap, .destroyingLxc],
  [.zombie, .reap, .unmountingFilesystems], [.zombie, .reap, .unheavy],
  [.zombie, .reap, .configuringDhcpd], [.zombie, .reap, .configuringUsbip],
  [.zombie, .db, .clearingRuntimeRow], [.zombie, .db, .delaying]]

/-- Those it is in only once the file systems are unmounted as well. -/
def unmountedStates : List Path := [
  [.stopping, .db], [.zombie, .reap, .unheavy], [.zombie, .reap, .configuringDhcpd],
  [.zombie, .reap, .configuringUsbip], [.zombie, .db, .clearingRuntimeRow],
  [.zombie, .db, .delaying]]

/-- Those it can be in once the row is cleared. -/
def releasedStates : List Path := [
  [.stopping, .db], [.zombie, .db, .clearingRuntimeRow], [.zombie, .db, .delaying],
  [.stopped], [.dirty]]

/-- Those in which an abandoned agent is left to itself. -/
def finalStates : List Path := [[.stopped], [.dirty]]

/-- A timer and a monitor report no result. -/
def reports (p : Path) (e : Event) : Bool :=
  (e ≠ .onDone && e ≠ .onError) || lxc.methodAt p ≠ some .setStateTimer

/-- What is needed of the transitions of the table. -/
structure EdgeOk (p : Path) (e : Event) (q : Path) : Prop where
  leaf : q ∈ lxc.leaves
  killed : reports p e = true → (p ∈ killedStates ∧ lxc.methodAt p ≠ some .startLxc) ∨
    (lxc.methodAt p = some .killLxc ∧ e = .onDone) ∨ skipsCleanUp p e = true ∨
      q ∉ killedStates
  unmounted : reports p e = true → p ∈ unmountedStates ∨
    (lxc.methodAt p = some .unmountFilesystems ∧ e = .onDone) ∨ skipsCleanUp p e = true ∨
      q ∉ unmountedStates
  agent : p = [.starting, .osFs] →
    e ∈ [Event.onDone, .onError, .onHkdKill, .onHkdStop] ∨ q ∈ finalStates
  closed : ∀ S ∈ [finalStates, releasedStates], p ∈ S → q ∈ S

set_option synthInstance.maxSize 400 in
instance (p : Path) (e : Event) (q : Path) : Decidable (EdgeOk p e q) :=
  decidable_of_iff (_ ∧ _ ∧ _ ∧ _ ∧ _)
    ⟨fun ⟨h1, h2, h3, h4, h5⟩ => ⟨h1, h2, h3, h4, h5⟩,
      fun h => ⟨h.leaf, h.killed, h.unmounted, h.agent, h.closed⟩⟩

theorem edges_ok : ∀ p ∈ lxc.leaves, ∀ e ∈ Event.all,
    lxc.next 3 p e = p ∨ EdgeOk p e (lxc.next 3 p e) := by
  decide +kernel

theorem unmounted_killed : ∀ p ∈ unmountedStates, p ∈ killedStates := by
  decide

/-- The agent is at work in its own state, or after the handler has come to an end. -/
def agentStates : List Path :=
  [.starting, .osFs] :: finalStates

theorem agentStates_methods : ∀ p ∈ agentStates,
    lxc.methodAt p ∈ [some Method.startOsFs, some .onStopped, none] ∧ p ∉ unmountedStates := by
  decide +kernel

/-- What the states of some methods have in common. -/
theorem method_states : ∀ p ∈ lxc.leaves,
    (lxc.methodAt p = some .clearRuntimeRow →
      p ∈ unmountedStates ∧ p ∈ releasedStates ∧ p ∉ agentStates) ∧
    (lxc.methodAt p = some .startOsFs → p = [.starting, .osFs]) ∧
    (lxc.methodAt p = some .startLxc → p = [.starting, .setup, .launching]) ∧
    (lxc.methodAt p = some .unmountFilesystems → p ∈ killedStates) ∧
    (∀ e ∈ Event.all, skipsCleanUp p e = true →
      p ∉ agentStates ∧ lxc.methodAt p ≠ some .startLxc) := by
  decide +kernel

theorem released_methods : ∀ p ∈ releasedStates,
    lxc.methodAt p ≠ some .startOsFs ∧ lxc.methodAt p ≠ some .startLxc := by
  decide +kernel

theorem next_launching : lxc.next 3 [.starting, .setup, .launching] .onDone =
    [.starting, .waitingForVma] := by
  decide +kernel

end Qvd.LxcCleanUp
