import Qvd.LxcHandlerTable
import Qvd.Runs

/-!
The timers of the states of the node's agents: the handlers of LXC and of KVM machines, and
the L7R. A state whose entry action is `_set_state_timer` waits for the event of its timer.
-/
namespace Qvd.HandlerTimers

open StateTable Runs

/-! ### The KVM handler -/

namespace Kvm

inductive Name
  | new | starting | running | debugging | stopping | stopped | zombie
  | db | loadingRow | searchingDi | calculatingAttrs | savingRuntimeRow | updatingStats
  | cleanOld | removingFwRules | heavy | unheavy
  | setup | allocatingOsDisk | allocatingUserDisk | allocatingTap | configuringDhcp
  | runningPrestartHook | settingFwRules | enablingIface | launching | waitingForVma
  | savingState | runningPoststartHook | monitoring | expiring
  | shutdown | shuttingdown | waitingForKvm | stop | killing
  | cleanup | runningPoststopHook | configuringDhcpd
  | config | delaying | reap | killingKvm | clearingRuntimeRow
deriving DecidableEq, Repr

inductive Event
  | onDone | onError
  | onCmdStart | onCmdStop | onCmdCatchZombie
  | onHkdStop | onHkdKill | onExpired
  | onKvmDone | onAlive | onDead | onGotoDebug
  | onStateTimeout | onTimeout
deriving DecidableEq, Repr

def Event.all : List Event :=
  [.onDone, .onError, .onCmdStart, .onCmdStop, .onCmdCatchZombie, .onHkdStop, .onHkdKill,
    .onExpired, .onKvmDone, .onAlive, .onDead, .onGotoDebug, .onStateTimeout, .onTimeout]

theorem Event.mem_all (e : Event) : e ∈ Event.all := by
  cases e <;> decide

inductive Method
  | loadRow | searchDi | calculateAttrs | saveRuntimeRow | incrRunAttempts
  | removeFwRules | heavyDown | heavyUp
  | allocateOsDisk | allocateUserDisk | allocateTap | addToDhcpd | runPrestartHook
  | setFwRules | enableIface | startKvm | startVmaMonitor
  | saveState | incrRunOk | runPoststartHook | expire
  | shutdown | setStateTimer | killKvm | rmFromDhcpd | clearRuntimeRow | onStopped
deriving DecidableEq, Repr

def table : Table Name Event Method := [
  { name := []
    ignore := [.onCmdStart, .onExpired, .onKvmDone]
    delay := [.onHkdKill, .onCmdStop]
    on := [(.onHkdStop, .onHkdKill)] },

  { name := [.new]
    transitions := [(.onCmdStart, { path := [.starting] }),
      (.onCmdStop, { path := [.stopping, .db] }),
      (.onCmdCatchZombie, { path := [.zombie] })] },

  { name := [.starting], advance := some .onDone, on := [(.onHkdKill, .onError)] },
  { name := [.starting, .db]
    transitions := [(.onError, { path := [.stopping, .db] })] },
  { name := [.starting, .db, .loadingRow], enter := some .loadRow },
  { name := [.starting, .db, .searchingDi], enter := some .searchDi },
  { name := [.starting, .db, .calculatingAttrs], enter := some .calculateAttrs },
  { name := [.starting, .db, .savingRuntimeRow], enter := some .saveRuntimeRow },
  { name := [.starting, .db, .updatingStats], enter := some .incrRunAttempts },
  { name := [.starting, .cleanOld]
    transitions := [(.onError, { path := [.zombie, .reap] }),
      (.onHkdKill, { path := [.stopping, .db] })] },
  { name := [.starting, .cleanOld, .removingFwRules], enter := some .removeFwRules },
  { name := [.starting, .heavy], enter := some .heavyDown
    transitions := [(.onError, { path := [.stopping, .db] }),
      (.onCmdStop, { path := [.stopping, .db] })] },
  { name := [.starting, .setup]
    transitions := [(.onError, { path := [.stopping, .cleanup] })] },
  { name := [.starting, .setup, .allocatingOsDisk], enter := some .allocateOsDisk },
  { name := [.starting, .setup, .allocatingUserDisk], enter := some .allocateUserDisk },
  { name := [.starting, .setup, .allocatingTap], enter := some .allocateTap },
  { name := [.starting, .setup, .configuringDhcp], enter := some .addToDhcpd },
  { name := [.starting, .setup, .runningPrestartHook], enter := some .runPrestartHook },
  { name := [.starting, .setup, .settingFwRules], enter := some .setFwRules },
  { name := [.starting, .setup, .enablingIface], enter := some .enableIface },
  { name := [.starting, .setup, .launching], enter := some .startKvm },
  { name := [.starting, .waitingForVma], enter := some .startVmaMonitor
    transitions := [(.onAlive, { path := [.running] }),
      (.onDead, { path := [.stopping, .stop] }),
      (.onCmdStop, { path := [.stopping, .shutdown] }),
      (.onKvmDone, { path := [.stopping, .cleanup] }),
      (.onHkdStop, { path := [.stopping, .shutdown] }),
      (.onHkdKill, { path := [.stopping, .stop] }),
      (.onGotoDebug, { path := [.debugging] })] },

  { name := [.running], advance := some .onDone, delay := [.onKvmDone]
    transitions := [(.onError, { path := [.stopping, .stop] })] },
  { name := [.running, .savingState], enter := some .saveState },
  { name := [.running, .updatingStats], enter := some .incrRunOk },
  { name := [.running, .runningPoststartHook], enter := some .runPoststartHook },
  { name := [.running, .unheavy], enter := some .heavyUp },
  { name := [.running, .monitoring], enter := some .startVmaMonitor
    ignore := [.onAlive]
    transitions := [(.onDead, { path := [.stopping, .stop] }),
      (.onCmdStop, { path := [.stopping, .shutdown] }),
      (.onKvmDone, { path := [.stopping, .cleanup] }),
      (.onHkdStop, { path := [.stopping, .shutdown] }),
      (.onHkdKill, { path := [.stopping, .stop] }),
      (.onGotoDebug, { path := [.debugging] }),
      (.onExpired, { path := [.expiring] })] },
  { name := [.running, .expiring], secondary := true, enter := some .expire
    transitions := [(.onDone, { path := [.monitoring] })] },

  { name := [.debugging], advance := some .onDone, delay := [.onKvmDone]
    transitions := [(.onError, { path := [.stopping, .stop] })] },
  { name := [.debugging, .savingState], enter := some .saveState },
  { name := [.debugging, .unheavy], enter := some .heavyUp },
  { name := [.debugging, .waitingForVma], enter := some .startVmaMonitor
    ignore := [.onDead, .onGotoDebug]
    transitions := [(.onAlive, { path := [.running] }),
      (.onCmdStop, { path := [.stopping, .stop] }),
      (.onKvmDone, { path := [.stopping, .cleanup] }),
      (.onHkdKill, { path := [.stopping, .stop] })] },

  { name := [.stopping], advance := some .onDone, delay := [.onKvmDone]
    transitions := [(.onError, { path := [.zombie, .reap] })] },
  { name := [.stopping, .shutdown]
    transitions := [(.onHkdKill, { path := [.stop] })] },
  { name := [.stopping, .shutdown, .savingState], enter := some .saveState },
  { name := [.stopping, .shutdown, .heavy], enter := some .heavyDown },
  { name := [.stopping, .shutdown, .shuttingdown], enter := some .shutdown
    transitions := [(.onError, { path := [.stop] }), (.onKvmDone, { path := [.cleanup] })] },
  { name := [.stopping, .shutdown, .waitingForKvm], enter := some .setStateTimer
    transitions := [(.onKvmDone, { path := [.cleanup] }),
      (.onStateTimeout, { path := [.stop] })] },
  { name := [.stopping, .stop] },
  { name := [.stopping, .stop, .savingState], enter := some .saveState },
  { name := [.stopping, .stop, .heavy], enter := some .heavyDown },
  { name := [.stopping, .stop, .killing], enter := some .killKvm
    on := [(.onError, .onDone)] },
  { name := [.stopping, .stop, .waitingForKvm], enter := some .setStateTimer
    transitions := [(.onKvmDone, { path := [.cleanup] }),
      (.onStateTimeout, { path := [.zombie, .reap] })] },
  { name := [.stopping, .cleanup] },
  { name := [.stopping, .cleanup, .savingState], enter := some .saveState },
  { name := [.stopping, .cleanup, .heavy], enter := some .heavyDown },
  { name := [.stopping, .cleanup, .removingFwRules], enter := some .removeFwRules },
  { name := [.stopping, .cleanup, .runningPoststopHook], enter := some .runPrestartHook },
  { name := [.stopping, .cleanup, .configuringDhcpd], enter := some .rmFromDhcpd },
  { name := [.stopping, .db], enter := some .clearRuntimeRow
    transitions := [(.onError, { path := [.zombie, .db] }),
      (.onDone, { path := [.stopped] })] },

  { name := [.stopped], enter := some .onStopped },

  { name := [.zombie], advance := some .onDone, delay := [.onKvmDone]
    ignore := [.onHkdStop]
    transitions := [(.onHkdKill, { path := [.stopped] })] },
  { name := [.zombie, .config]
    transitions := [(.onError, { path := [.delaying] })] },
  { name := [.zombie, .config, .savingState], enter := some .saveState
    on := [(.onError, .onDone)] },
  { name := [.zombie, .config, .calculatingAttrs], enter := some .calculateAttrs
    transitions := [(.onError, { path := [.delaying] })] },
  { name := [.zombie, .config, .delaying], secondary := true, enter := some .setStateTimer
    transitions := [(.onTimeout, { path := [.config] })] },
  { name := [.zombie, .reap]
    transitions := [(.onError, { path := [.delaying] })] },
  { name := [.zombie, .reap, .savingState], enter := some .saveState
    on := [(.onError, .onDone)] },
  { name := [.zombie, .reap, .heavy], enter := some .heavyDown },
  { name := [.zombie, .reap, .killingKvm], enter := some .killKvm
    transitions := [(.onError, { path := [.removingFwRules] })] },
  { name := [.zombie, .reap, .waitingForKvm], enter := some .setStateTimer
    on := [(.onKvmDone, .onDone), (.onStateTimeout, .onError)] },
  { name := [.zombie, .reap, .removingFwRules], enter := some .removeFwRules },
  { name := [.zombie, .reap, .unheavy], enter := some .heavyUp },
  { name := [.zombie, .reap, .configuringDhcpd], enter := some .rmFromDhcpd },
  { name := [.zombie, .reap, .delaying], secondary := true, enter := some .setStateTimer
    transitions := [(.onStateTimeout, { path := [.reap] })] },
  { name := [.zombie, .db]
    transitions := [(.onError, { path := [.delaying] })] },
  { name := [.zombie, .db, .clearingRuntimeRow], enter := some .clearRuntimeRow
    transitions := [(.onDone, { path := [.stopped] })] },
  { name := [.zombie, .db, .delaying], secondary := true, enter := some .setStateTimer
    transitions := [(.onStateTimeout, { path := [.db] })] }]

end Kvm

/-! ### The L7R -/

namespace L7r

inductive Name
  | new | running | killing | waiting | cleanup | stopped
deriving DecidableEq, Repr

inductive Event
  | onRun | onDone | onKill | onHkdStop | onHkdKill | onAbort | onL7rDone
  | onStateTimeout | onTimeout
deriving DecidableEq, Repr

def Event.all : List Event :=
  [.onRun, .onDone, .onKill, .onHkdStop, .onHkdKill, .onAbort, .onL7rDone, .onStateTimeout,
    .onTimeout]

theorem Event.mem_all (e : Event) : e ∈ Event.all := by
  cases e <;> decide

inductive Method
  | start | kill | setStateTimer | cleanRow | onStopped
deriving DecidableEq, Repr

def table : Table Name Event Method := [
  { name := []
    ignore := [.onKill]
    on := [(.onHkdStop, .onKill), (.onHkdKill, .onKill), (.onAbort, .onKill)]
    transitions := [(.onL7rDone, { path := [.cleanup] })] },
  { name := [.new], transitions := [(.onRun, { path := [.running] })] },
  { name := [.running], enter := some .start
    transitions := [(.onKill, { path := [.killing] })] },
  { name := [.killing], enter := some .kill },
  { name := [.killing, .waiting], enter := some .setStateTimer
    transitions := [(.onTimeout, { path := [.killing] })] },
  { name := [.cleanup], enter := some .cleanRow
    transitions := [(.onDone, { path := [.stopped] })] },
  { name := [.stopped], enter := some .onStopped }]

end L7r

/-! ### Machines with timers -/

/-- A machine that does what its table says. -/
structure Machine {N E M : Type} [DecidableEq N] [DecidableEq E] (t : Table N E M) where
  next : List N → E → List N
  follows : Follows t next

/-- The delays of the configuration, by state; those with a default are always there. -/
structure Delays {N : Type} (defaults : List (List N)) where
  delay : List N → Option ℕ
  default : ∀ p ∈ defaults, (delay p).isSome = true

section Timers

variable {N E M : Type} [DecidableEq N] [DecidableEq E] {t : Table N E M}

/-- The runs of a machine from a state. -/
def runs (m : Machine t) (start : List N) : System (List N) E where
  init p := p = start
  step p e q := q = m.next p e

theorem runs_extend {m : Machine t} {start p q : List N} {e : E} {past : List (List N × E)}
    (run : (runs m start).Run past p) (h : m.next p e = q) :
    (runs m start).Run ((p, e) :: past) q :=
  run.extend h.symm

/-- A state that sets its timer has a delay for it, and the event of the timer leaves the
state. -/
def LeadsOn (m : Machine t) {defaults : List (List N)} (cfg : Delays defaults)
    (setStateTimer : M) (onStateTimeout : E) (p : List N) : Prop :=
  t.methodAt p = some setStateTimer →
    (cfg.delay p).isSome = true ∧ m.next p onStateTimeout ≠ p

/-- In a machine with one state that is not left, the timers lead on in a run exactly if
none of its steps is one of those that lead to that state. -/
theorem always_leadsOn_iff {n : ℕ} (htotal : t.Total n) (m : Machine t)
    {defaults : List (List N)} (cfg : Delays defaults) {timer : M} {timeout : E}
    {start stuck : List N} {strands : List N → E → Prop}
    (hwell : t.WellFormed)
    (hstart : start ∈ t.leaves) (hother : start ≠ stuck)
    (hdefaults : ∀ s ∈ t, s.enter = some timer →
      s.name = stuck ∨ s.name ∈ defaults ∧ t.next n s.name timeout ≠ s.name)
    (hstuck : t.methodAt stuck = some timer ∧ t.next n stuck timeout = stuck)
    (hleads : ∀ p ∈ t.leaves, p ≠ stuck → ∀ e, t.next n p e = stuck ↔ strands p e)
    {past : List (List N × E)} {p : List N} (run : (runs m start).Run past p) :
    Always (LeadsOn m cfg timer timeout) past p ↔ AllSteps (fun p e => ¬strands p e) past := by
  have hnext : ∀ p ∈ t.leaves, ∀ e, m.next p e = t.next n p e :=
    fun p hp e => m.follows.next_eq htotal p e hp
  have hleadsOn : ∀ p ∈ t.leaves, LeadsOn m cfg timer timeout p ↔ p ≠ stuck := by
    intro p hp
    constructor
    · rintro h rfl
      exact (h hstuck.1).2 ((hnext _ hp timeout).trans hstuck.2)
    · intro hne hmethod
      obtain ⟨s, hs, henter⟩ := Option.bind_eq_some_iff.mp hmethod
      obtain ⟨hmem, rfl⟩ := Table.mem_of_at? hs
      rcases hdefaults s hmem henter with heq | ⟨hknown, hleft⟩
      · exact absurd heq hne
      · exact ⟨cfg.default _ hknown, fun heq => hleft ((hnext _ hp timeout).symm.trans heq)⟩
  have hleaf : ∀ p, p = start → p ∈ t.leaves := fun p hp => hp ▸ hstart
  have hstep : ∀ p e q, p ∈ t.leaves → q = m.next p e → q ∈ t.leaves := by
    rintro p e q hp rfl
    rw [hnext p hp]
    exact hwell.next_mem n hp e
  have halways : Always (fun p => p ∈ t.leaves) past p := run.always hleaf hstep
  have hiff : Always (fun p => p ∈ t.leaves ∧ p ≠ stuck) past p ↔
      AllSteps (fun p e => ¬strands p e) past := by
    refine run.always_iff_allSteps ?_ ?_
    · intro p hp
      exact ⟨hleaf p hp, fun heq => hother (hp.symm.trans heq)⟩
    · intro p e q hI hq
      rw [← hleads p hI.1 hI.2 e, ← hnext p hI.1 e, ← show q = m.next p e from hq]
      exact and_iff_right (hstep p e q hI.1 hq)
  rw [← hiff]
  constructor
  · exact fun h => ⟨⟨halways.1, (hleadsOn _ halways.1).mp h.1⟩, fun x hx =>
      ⟨halways.2 x hx, (hleadsOn _ (halways.2 x hx)).mp (h.2 x hx)⟩⟩
  · exact fun h => ⟨(hleadsOn _ h.1.1).mpr h.1.2, fun x hx =>
      (hleadsOn _ (h.2 x hx).1).mpr (h.2 x hx).2⟩

/-- Where only states within an outer one lead to a secondary state of it, the steps to it
are those of its other states. -/
theorem next_eq_iff_of_outer {n : ℕ} {p : List N} (outer : List N) (last : N)
    (strands : List N → E → Prop)
    (hsecondary : ∀ s ∈ t, s.name = outer ++ [last] → s.secondary = true)
    (htargets : ∀ s ∈ t, ∀ tr ∈ s.transitions, tr.2.path <:+ outer ++ [last] →
      tr.2.path = [last] ∧ tr.2.absolute = false)
    (hsubstates : (t.substates outer).isEmpty = false)
    (hinner : ∀ s ∈ t, outer <+: s.name → s.name ∉ [outer, outer ++ [last]] → ∀ e,
      (t.next n s.name e = outer ++ [last] ↔ strands s.name e))
    (houter : ∀ p e, strands p e → outer <+: p) (hp : p ∈ t.leaves)
    (hne : p ≠ outer ++ [last]) (e : E) :
    t.next n p e = outer ++ [last] ↔ strands p e := by
  by_cases hin : outer <+: p
  · rw [Table.leaves, List.mem_filter, List.mem_map, decide_eq_true_eq] at hp
    obtain ⟨⟨s, hs, rfl⟩, -, hempty⟩ := hp
    refine hinner s hs hin ?_ e
    rw [List.mem_cons, List.mem_singleton, not_or]
    refine ⟨fun heq => ?_, hne⟩
    rw [heq, hsubstates] at hempty
    cases hempty
  · refine iff_of_false (fun heq => ?_) (fun hstrands => hin (houter p e hstrands))
    rw [Table.next] at heq
    cases hreact : t.react n p e with
    | none =>
      rw [hreact] at heq
      exact hne heq
    | some target =>
      rw [hreact] at heq
      obtain rfl : target = outer ++ [last] := heq
      exact (Table.outer_of_react hsecondary htargets hreact).elim hne hin

end Timers

/-! ### The three machines -/

section Lxc

open LxcHandlerTable

def lxcDelays : List Path :=
  [[.stopping, .shutdown, .waitingForLxc], [.stopping, .stop, .waitingForLxc],
    [.zombie, .config, .delaying], [.zombie, .reap, .waitingForLxc], [.zombie, .reap, .delaying],
    [.zombie, .db, .delaying]]

theorem lxc_timers : ∀ s ∈ lxc, s.enter = some .setStateTimer →
    s.name = [.zombie, .config, .delaying] ∨
      s.name ∈ lxcDelays ∧ lxc.next 3 s.name .onStateTimeout ≠ s.name := by
  decide +kernel

/-- The attributes of a zombie cannot be calculated. -/
def ZombieFails (p : Path) (e : Event) : Prop :=
  p = [.zombie, .config, .calculatingAttrs] ∧ e = .onError

instance (p : Path) (e : Event) : Decidable (ZombieFails p e) :=
  inferInstanceAs (Decidable (_ ∧ _))

theorem lxc_config (s) (hs : s ∈ lxc) (hconfig : [.zombie, .config] <+: s.name)
    (hname : s.name ∉ [[.zombie, .config], [.zombie, .config] ++ [.delaying]]) (e : Event) :
    lxc.next 3 s.name e = [.zombie, .config] ++ [.delaying] ↔
      ZombieFails s.name e := by
  have hall : ∀ s ∈ lxc, [.zombie, .config] <+: s.name →
      s.name ∉ [[.zombie, .config], [.zombie, .config] ++ [.delaying]] → ∀ e ∈ Event.all,
      (lxc.next 3 s.name e = [.zombie, .config] ++ [.delaying] ↔
        ZombieFails s.name e) := by
    decide +kernel
  exact hall s hs hconfig hname e (Event.mem_all e)

theorem lxc_leads (p : Path) (hp : p ∈ lxc.leaves) (hne : p ≠ [.zombie, .config, .delaying])
    (e : Event) : lxc.next 3 p e = [.zombie, .config, .delaying] ↔ ZombieFails p e :=
  next_eq_iff_of_outer (t := lxc) [.zombie, .config] .delaying
    ZombieFails (by decide) (by decide) (by decide) lxc_config (fun p e h => h.1 ▸ ⟨[_], rfl⟩) hp hne e

end Lxc

section Kvm

open Kvm

def kvmDelays : List (List Name) :=
  [[.stopping, .shutdown, .waitingForKvm], [.stopping, .stop, .waitingForKvm],
    [.zombie, .config, .delaying], [.zombie, .reap, .waitingForKvm], [.zombie, .reap, .delaying],
    [.zombie, .db, .delaying]]

/-- How often an event can be redirected. -/
def redirections : Event → ℕ
  | .onError | .onKvmDone => 1
  | .onHkdKill | .onStateTimeout => 2
  | .onHkdStop => 3
  | _ => 0

theorem kvm_total : table.Total 4 :=
  Table.total_of_rank redirections (fun e => by cases e <;> decide) (by decide)
    (by decide +kernel)

theorem kvm_wellFormed : table.WellFormed where
  primary := by decide +kernel
  absolute := by decide
  depth := by decide
  named := by decide

theorem kvm_timers : ∀ s ∈ table, s.enter = some .setStateTimer →
    s.name = [.zombie, .config, .delaying] ∨
      s.name ∈ kvmDelays ∧ table.next 4 s.name .onStateTimeout ≠ s.name := by
  decide +kernel

def KvmZombieFails (p : List Name) (e : Event) : Prop :=
  p = [.zombie, .config, .calculatingAttrs] ∧ e = .onError

instance (p : List Name) (e : Event) : Decidable (KvmZombieFails p e) :=
  inferInstanceAs (Decidable (_ ∧ _))

theorem kvm_config (s) (hs : s ∈ table) (hconfig : [.zombie, .config] <+: s.name)
    (hname : s.name ∉ [[.zombie, .config], [.zombie, .config] ++ [.delaying]]) (e : Event) :
    table.next 4 s.name e = [.zombie, .config] ++ [.delaying] ↔
      KvmZombieFails s.name e := by
  have hall : ∀ s ∈ table, [.zombie, .config] <+: s.name →
      s.name ∉ [[.zombie, .config], [.zombie, .config] ++ [.delaying]] → ∀ e ∈ Event.all,
      (table.next 4 s.name e = [.zombie, .config] ++ [.delaying] ↔
        KvmZombieFails s.name e) := by
    decide +kernel
  exact hall s hs hconfig hname e (Event.mem_all e)

theorem kvm_leads (p : List Name) (hp : p ∈ table.leaves)
    (hne : p ≠ [.zombie, .config, .delaying]) (e : Event) :
    table.next 4 p e = [.zombie, .config, .delaying] ↔ KvmZombieFails p e :=
  next_eq_iff_of_outer (t := table) [.zombie, .config] .delaying
    KvmZombieFails (by decide) (by decide) (by decide) kvm_config
    (fun p e h => h.1 ▸ ⟨[_], rfl⟩) hp hne e

end Kvm

section L7r

open L7r

/-- There is a delay for the killing of an L7R, but none for its state of waiting. -/
def l7rDelays : List (List Name) := [[.killing]]

theorem l7r_total : table.Total 2 := by
  intro p hp e
  have hall : ∀ p ∈ table.leaves, ∀ e ∈ Event.all, (table.react 2 p e).isSome = true := by
    decide
  exact hall p hp e (Event.mem_all e)

theorem l7r_wellFormed : table.WellFormed where
  primary := by decide
  absolute := by decide
  depth := by decide
  named := by decide

theorem l7r_timers : ∀ s ∈ table, s.enter = some .setStateTimer →
    s.name = [.killing, .waiting] ∨
      s.name ∈ l7rDelays ∧ table.next 2 s.name .onStateTimeout ≠ s.name := by
  decide

/-- A running L7R is told to stop. -/
def ToldToStop (p : List Name) (e : Event) : Prop :=
  p = [.running] ∧ e ∈ [Event.onKill, .onHkdStop, .onHkdKill, .onAbort]

instance (p : List Name) (e : Event) : Decidable (ToldToStop p e) :=
  inferInstanceAs (Decidable (_ ∧ _))

theorem l7r_leads (p : List Name) (hp : p ∈ table.leaves) (hne : p ≠ [.killing, .waiting])
    (e : Event) : table.next 2 p e = [.killing, .waiting] ↔ ToldToStop p e := by
  have hall : ∀ p ∈ table.leaves, p ≠ [.killing, .waiting] → ∀ e ∈ Event.all,
      (table.next 2 p e = [.killing, .waiting] ↔ ToldToStop p e) := by
    decide
  exact hall p hp hne e (Event.mem_all e)

end L7r

section Examples

/-- The machines that do what the tables say and no more. -/
def lxcTable : Machine LxcHandlerTable.lxc :=
  ⟨LxcHandlerTable.lxc.next 3, LxcHandlerTable.lxc_follows⟩

def kvmTable : Machine Kvm.table := ⟨Kvm.table.next 4, follows_next kvm_total⟩

def l7rTable : Machine L7r.table := ⟨L7r.table.next 2, follows_next l7r_total⟩

def everyMinute {N : Type} (defaults : List (List N)) : Delays defaults where
  delay _ := some 60
  default _ _ := rfl

end Examples

end Qvd.HandlerTimers
