import Qvd.HandlerTimers

/-!
The kvm processes of one machine on a host, over the lives of its HKD. A handler that stops as a
zombie forgets its process, and a crash of the HKD leaves its processes without handlers. Every
process holds the lock of the HKD that has started it, so that no later HKD gets past its start
while one of them runs.
-/
namespace Qvd.KvmRelease

open StateTable HandlerTimers HandlerTimers.Kvm Runs

/-! ### The host -/

/-- What is behind `vm_pid`: nothing, a process, or one that has ended and is still to be reaped. -/
inductive Child where
  | none | alive | ended
deriving DecidableEq

structure Handler where
  path : List Name
  child : Child
deriving DecidableEq

/-- The HKD: not there, before `acquiring_vm_lock` is done, before and while commands are
delivered, and once the handlers are told to stop. -/
inductive Phase where
  | down | locking | setup | serving | stopping
deriving DecidableEq

structure World where
  phase : Phase
  handler : Option Handler
  /-- The processes that no handler knows. -/
  strays : ℕ
deriving DecidableEq

def Handler.running (h : Handler) : ℕ := if h.child = .alive then 1 else 0

/-- The kvm processes of the machine. -/
def World.running (w : World) : ℕ := w.strays + (w.handler.map Handler.running).getD 0

inductive Label where
  | boot
  | lock
  | serve
  | stop
  | crash
  | catchZombie
  | command (e : Event)
  | event (e : Event)
  | finish (e : Event)
  | startKvm (forked : Bool)
  | killKvm (e : Event)
  | kvmExits
  | kvmReaped
  | strayExits
  | release
deriving DecidableEq

/-- The methods that report whether they have worked. -/
def reports : Method → Bool
  | .startKvm | .killKvm | .startVmaMonitor | .setStateTimer | .onStopped => false
  | _ => true

/-- What may be told to a handler from outside; a delayed `_on_kvm_done` comes again, and
`_stop_all_vms` and `_kill_all_vms` are the last commands of an HKD. -/
def External (phase : Phase) (h : Handler) (e : Event) : Prop :=
  e ≠ .onDone ∧ e ≠ .onError ∧ (e = .onKvmDone → h.child = .none) ∧
    (e = .onHkdStop ∨ e = .onHkdKill → phase = .stopping)

/-- `_kill_kvm` fails where it has no process, or one that has ended. -/
def KillReports (h : Handler) (e : Event) : Prop :=
  e = .onDone ∧ h.child ≠ .none ∨ e = .onError ∧ h.child ≠ .alive

instance (phase : Phase) (h : Handler) (e : Event) : Decidable (External phase h e) :=
  inferInstanceAs (Decidable (_ ∧ _))

instance (h : Handler) (e : Event) : Decidable (KillReports h e) :=
  inferInstanceAs (Decidable (_ ∨ _))

section Steps

variable (mach : Machine table)

/-- A handler as `_new_vm_handler` makes it, and its first command. -/
def fresh (e : Event) : Handler := ⟨mach.next [.new] e, .none⟩

def Handler.told (h : Handler) (e : Event) : Handler := { h with path := mach.next h.path e }

/-- `_start_kvm` has no other way out than `_on_done`. -/
def Handler.launched (h : Handler) (forked : Bool) : Handler :=
  { path := mach.next h.path .onDone, child := if forked then .alive else .none }

/-- The lock is free when nobody holds it: the HKD before is gone, and so are the processes that
have it open. -/
inductive Step : World → Label → World → Prop
  | boot (n : ℕ) : Step ⟨.down, none, n⟩ .boot ⟨.locking, none, n⟩
  | lock : Step ⟨.locking, none, 0⟩ .lock ⟨.setup, none, 0⟩
  | serve (h : Option Handler) (n : ℕ) : Step ⟨.setup, h, n⟩ .serve ⟨.serving, h, n⟩
  | stop {phase : Phase} (hphase : phase = .setup ∨ phase = .serving) (h : Option Handler)
      (n : ℕ) : Step ⟨phase, h, n⟩ .stop ⟨.stopping, h, n⟩
  | crash (w : World) : Step w .crash ⟨.down, none, w.running⟩
  | catchZombie (n : ℕ) :
      Step ⟨.setup, none, n⟩ .catchZombie ⟨.setup, some (fresh mach .onCmdCatchZombie), n⟩
  | command {e : Event} (he : e = .onCmdStart ∨ e = .onCmdStop) (n : ℕ) :
      Step ⟨.serving, none, n⟩ (.command e) ⟨.serving, some (fresh mach e), n⟩
  | event {phase : Phase} {h : Handler} {e : Event} (he : External phase h e) (n : ℕ) :
      Step ⟨phase, some h, n⟩ (.event e) ⟨phase, some (h.told mach e), n⟩
  | finish {m : Method} {h : Handler} {e : Event} (hm : table.methodAt h.path = some m)
      (hreports : reports m = true) (he : e = .onDone ∨ e = .onError) (phase : Phase) (n : ℕ) :
      Step ⟨phase, some h, n⟩ (.finish e) ⟨phase, some (h.told mach e), n⟩
  | startKvm {h : Handler} (hm : table.methodAt h.path = some .startKvm) (forked : Bool)
      (phase : Phase) (n : ℕ) :
      Step ⟨phase, some h, n⟩ (.startKvm forked) ⟨phase, some (h.launched mach forked), n⟩
  | killKvm {h : Handler} {e : Event} (hm : table.methodAt h.path = some .killKvm)
      (he : KillReports h e) (phase : Phase) (n : ℕ) :
      Step ⟨phase, some h, n⟩ (.killKvm e) ⟨phase, some (h.told mach e), n⟩
  | kvmExits (path : List Name) (phase : Phase) (n : ℕ) :
      Step ⟨phase, some ⟨path, .alive⟩, n⟩ .kvmExits ⟨phase, some ⟨path, .ended⟩, n⟩
  | kvmReaped (path : List Name) (phase : Phase) (n : ℕ) :
      Step ⟨phase, some ⟨path, .ended⟩, n⟩ .kvmReaped
        ⟨phase, some ⟨mach.next path .onKvmDone, .none⟩, n⟩
  | strayExits (phase : Phase) (h : Option Handler) (n : ℕ) :
      Step ⟨phase, h, n + 1⟩ .strayExits ⟨phase, h, n⟩
  | release (child : Child) (phase : Phase) (n : ℕ) :
      Step ⟨phase, some ⟨[.stopped], child⟩, n⟩ .release
        ⟨phase, none, n + (⟨[.stopped], child⟩ : Handler).running⟩

/-- The lives of the HKD of a host on which nothing of the machine runs at first. -/
def lives : System World Label where
  init w := w = ⟨.down, none, 0⟩
  step := Step mach

end Steps

/-! ### What the handler knows of its process -/

/-- The process has not been started. -/
def Unlaunched (p : List Name) : Prop :=
  p = [.new] ∨ [.starting] <+: p ∧ p ≠ [.starting, .waitingForVma]

/-- The handler releases what the machine has used. -/
def Releasing (p : List Name) : Prop :=
  [.stopping, .cleanup] <+: p ∨ p = [.stopping, .db] ∨ p = [.zombie, .reap, .removingFwRules] ∨
    p = [.zombie, .reap, .unheavy] ∨ p = [.zombie, .reap, .configuringDhcpd] ∨
    [.zombie, .db] <+: p

instance (p : List Name) : Decidable (Unlaunched p) :=
  inferInstanceAs (Decidable (_ ∨ _))

instance (p : List Name) : Decidable (Releasing p) :=
  inferInstanceAs (Decidable (_ ∨ _))

/-- The events that only the method of a state may report. -/
def Reported (p : List Name) (e : Event) : Prop :=
  (e = .onDone ∨ e = .onError) ∧ ((table.methodAt p).any reports = false)

instance (p : List Name) (e : Event) : Decidable (Reported p e) :=
  inferInstanceAs (Decidable (_ ∧ _))

theorem next_unlaunched : ∀ p ∈ table.leaves, ∀ e ∈ Event.all,
    Unlaunched (table.next 4 p e) → Unlaunched p := by
  decide +kernel

/-- A handler gets to the release from before the start of its process, with the news of its end,
or where there was none to kill. -/
theorem next_releasing : ∀ p ∈ table.leaves, ∀ e ∈ Event.all, Releasing (table.next 4 p e) →
    Releasing p ∨ Unlaunched p ∨ e = .onKvmDone ∨ Reported p e ∧
      (table.methodAt p = some .killKvm → e = .onError) := by
  decide +kernel

theorem next_stopped : ∀ p ∈ table.leaves, ∀ e ∈ Event.all, table.next 4 p e = [.stopped] →
    p = [.stopped] ∨ Releasing p ∨ Unlaunched p ∨ e = .onHkdStop ∨ e = .onHkdKill := by
  decide +kernel

theorem next_launching : ∀ p ∈ table.leaves, table.methodAt p = some .startKvm →
    table.next 4 p .onDone = [.starting, .waitingForVma] := by
  decide +kernel

theorem clears_releasing : ∀ p ∈ table.leaves, table.methodAt p = some .clearRuntimeRow →
    Releasing p := by
  decide +kernel

/-- What holds of a handler and its process; only an HKD that stops may let a handler go whose
process runs. -/
structure HandlerOk (phase : Phase) (h : Handler) : Prop where
  leaf : h.path ∈ table.leaves
  unlaunched : Unlaunched h.path → h.child = .none
  releasing : Releasing h.path → h.child ≠ .alive
  stopped : h.path = [.stopped] → h.child = .alive → phase = .stopping

section Handlers

variable {mach : Machine table} {phase : Phase} {h : Handler} {e : Event}

theorem next_eq {p : List Name} (hp : p ∈ table.leaves) (e : Event) :
    mach.next p e = table.next 4 p e :=
  mach.follows.next_eq kvm_total p e hp

/-- A handler without a process. -/
theorem HandlerOk.of_not_alive (hleaf : h.path ∈ table.leaves)
    (hunlaunched : Unlaunched h.path → h.child = .none) (halive : h.child ≠ .alive) :
    HandlerOk phase h :=
  ⟨hleaf, hunlaunched, fun _ => halive, fun _ hchild => absurd hchild halive⟩

theorem fresh_ok (e : Event) : HandlerOk phase (fresh mach e) := by
  have hnew : [Name.new] ∈ table.leaves := by decide +kernel
  refine .of_not_alive ?_ (fun _ => rfl) nofun
  rw [fresh, next_eq hnew]
  exact kvm_wellFormed.next_mem 4 hnew e

/-- An event that a handler is told; a process that runs is not left behind. -/
theorem HandlerOk.told (hok : HandlerOk phase h)
    (halive : h.child = .alive → e ≠ .onKvmDone ∧ (Reported h.path e →
      table.methodAt h.path = some .killKvm ∧ e = .onDone))
    (hstop : e = .onHkdStop ∨ e = .onHkdKill → phase = .stopping) :
    HandlerOk phase (h.told mach e) := by
  have hnext : mach.next h.path e = table.next 4 h.path e := next_eq hok.leaf e
  have hmem := Event.mem_all e
  constructor
  · rw [Handler.told, hnext]
    exact kvm_wellFormed.next_mem 4 hok.leaf e
  · intro hun
    rw [Handler.told, hnext] at hun
    exact hok.unlaunched (next_unlaunched h.path hok.leaf e hmem hun)
  · intro hreleasing hchild
    rw [Handler.told, hnext] at hreleasing
    obtain ⟨hne, hreported⟩ := halive hchild
    rcases next_releasing h.path hok.leaf e hmem hreleasing with h1 | h1 | h1 | ⟨h1, h2⟩
    · exact hok.releasing h1 hchild
    · exact absurd ((hok.unlaunched h1).symm.trans hchild) nofun
    · exact hne h1
    · obtain ⟨hkill, hdone⟩ := hreported h1
      exact absurd ((h2 hkill).symm.trans hdone) nofun
  · intro hstopped hchild
    rw [Handler.told, hnext] at hstopped
    rcases next_stopped h.path hok.leaf e hmem hstopped with h1 | h1 | h1 | h1
    · exact hok.stopped h1 hchild
    · exact absurd hchild (hok.releasing h1)
    · exact absurd ((hok.unlaunched h1).symm.trans hchild) nofun
    · exact hstop h1

theorem HandlerOk.launched (hok : HandlerOk phase h)
    (hm : table.methodAt h.path = some .startKvm) (forked : Bool) :
    HandlerOk phase (h.launched mach forked) := by
  have hpath : (h.launched mach forked).path = [.starting, .waitingForVma] :=
    (next_eq hok.leaf .onDone).trans (next_launching h.path hok.leaf hm)
  constructor
  · rw [hpath]
    decide +kernel
  · rw [hpath]
    exact fun hun => absurd hun (by decide)
  · rw [hpath]
    exact fun hreleasing => absurd hreleasing (by decide)
  · rw [hpath]
    exact fun hstopped => absurd hstopped (by decide)

theorem HandlerOk.later {phase' : Phase} (hok : HandlerOk phase h)
    (hphase : phase = .stopping → phase' = .stopping) : HandlerOk phase' h :=
  ⟨hok.leaf, hok.unlaunched, hok.releasing, fun hstopped hchild =>
    hphase (hok.stopped hstopped hchild)⟩

end Handlers

/-! ### The host over the lives of its HKD -/

/-- The invariant of the host: behind the lock no process is without its handler, until the HKD
stops. -/
structure Inv (w : World) : Prop where
  handler : ∀ h, w.handler = some h → HandlerOk w.phase h ∧ w.strays = 0
  strays : w.strays ≤ 1
  locked : w.phase = .setup ∨ w.phase = .serving → w.strays = 0

section Runs

variable {mach : Machine table} {w w' : World} {l : Label}

theorem Inv.running_le (hinv : Inv w) : w.running ≤ 1 := by
  have hstrays := hinv.strays
  unfold World.running
  cases hw : w.handler with
  | none => exact hstrays
  | some h =>
    have hle : h.running ≤ 1 := by
      unfold Handler.running
      split <;> omega
    rw [(hinv.handler h hw).2, Nat.zero_add]
    exact hle

/-- Another handler in the place of the one there was. -/
theorem Inv.replace {phase : Phase} {h h' : Handler} {n : ℕ} (hinv : Inv ⟨phase, some h, n⟩)
    (hok : HandlerOk phase h') : Inv ⟨phase, some h', n⟩ where
  handler _ heq := Option.some.inj heq ▸ ⟨hok, (hinv.handler h rfl).2⟩
  strays := hinv.strays
  locked := hinv.locked

theorem Inv.step (hinv : Inv w) (hstep : Step mach w l w') : Inv w' := by
  cases hstep with
  | boot n => exact ⟨nofun, hinv.strays, fun h => h.elim nofun nofun⟩
  | lock => exact ⟨nofun, Nat.zero_le 1, fun _ => rfl⟩
  | serve h n =>
    refine ⟨fun h' heq => ?_, hinv.strays, fun _ => hinv.locked (.inl rfl)⟩
    obtain ⟨hok, hzero⟩ := hinv.handler h' heq
    exact ⟨hok.later nofun, hzero⟩
  | stop hphase h n =>
    refine ⟨fun h' heq => ?_, hinv.strays, fun h => h.elim nofun nofun⟩
    obtain ⟨hok, hzero⟩ := hinv.handler h' heq
    exact ⟨hok.later fun _ => rfl, hzero⟩
  | crash w => exact ⟨nofun, hinv.running_le, fun h => h.elim nofun nofun⟩
  | catchZombie n =>
    have hzero : n = 0 := hinv.locked (.inl rfl)
    exact ⟨fun h heq => Option.some.inj heq ▸ ⟨fresh_ok _, hzero⟩, hinv.strays, hinv.locked⟩
  | command he n =>
    have hzero : n = 0 := hinv.locked (.inr rfl)
    exact ⟨fun h heq => Option.some.inj heq ▸ ⟨fresh_ok _, hzero⟩, hinv.strays, hinv.locked⟩
  | event he n =>
    obtain ⟨hdone, herror, hkvm, hstop⟩ := he
    refine hinv.replace ((hinv.handler _ rfl).1.told (fun halive => ⟨fun heq => ?_, ?_⟩) hstop)
    · exact absurd ((hkvm heq).symm.trans halive) nofun
    · exact fun hreported => (hreported.1.elim hdone herror).elim
  | finish hm hreports he phase n =>
    refine hinv.replace ((hinv.handler _ rfl).1.told (fun halive => ⟨?_, ?_⟩) ?_)
    · rintro rfl
      exact he.elim nofun nofun
    · rintro ⟨-, hany⟩
      rw [hm, Option.any_some, hreports] at hany
      cases hany
    · rintro (rfl | rfl)
      · exact he.elim nofun nofun
      · exact he.elim nofun nofun
  | startKvm hm forked phase n => exact hinv.replace ((hinv.handler _ rfl).1.launched hm forked)
  | killKvm hm he phase n =>
    refine hinv.replace ((hinv.handler _ rfl).1.told (fun halive => ?_) ?_)
    · rcases he with ⟨rfl, -⟩ | ⟨-, hne⟩
      · exact ⟨nofun, fun _ => ⟨hm, rfl⟩⟩
      · exact absurd halive hne
    · rintro (rfl | rfl)
      · exact he.elim (fun h => nomatch h.1) fun h => nomatch h.1
      · exact he.elim (fun h => nomatch h.1) fun h => nomatch h.1
  | kvmExits path phase n =>
    have hok := (hinv.handler _ rfl).1
    refine hinv.replace (.of_not_alive hok.leaf (fun hun => ?_) nofun)
    exact absurd (hok.unlaunched hun) nofun
  | kvmReaped path phase n =>
    have hok := (hinv.handler _ rfl).1
    refine hinv.replace (.of_not_alive ?_ (fun _ => rfl) nofun)
    rw [next_eq hok.leaf]
    exact kvm_wellFormed.next_mem 4 hok.leaf .onKvmDone
  | strayExits phase h n =>
    refine ⟨fun h' heq => ?_, Nat.le_of_succ_le hinv.strays, fun hphase => ?_⟩
    · exact absurd (hinv.handler h' heq).2 (Nat.succ_ne_zero n)
    · exact absurd (hinv.locked hphase) (Nat.succ_ne_zero n)
  | release child phase n =>
    obtain ⟨hok, hzero⟩ := hinv.handler _ rfl
    obtain rfl : n = 0 := hzero
    refine ⟨nofun, hinv.running_le, fun hphase => ?_⟩
    have hchild : child ≠ .alive := by
      rintro rfl
      have hstopping := hok.stopped rfl rfl
      rcases hphase with heq | heq
      · cases heq.symm.trans hstopping
      · cases heq.symm.trans hstopping
    rw [Nat.zero_add, Handler.running, if_neg hchild]

theorem inv_of_run {past : List (World × Label)} (run : (lives mach).Run past w) : Inv w :=
  (run.always (fun _ hw => hw ▸ ⟨nofun, Nat.zero_le 1, fun _ => rfl⟩)
    fun _ _ _ hinv hstep => hinv.step hstep).1

/-- The handler has its row cleared, with which the machine may be started elsewhere. -/
def World.Clears (w : World) : Prop :=
  ∃ h, w.handler = some h ∧ table.methodAt h.path = some .clearRuntimeRow

/-- A machine whose row cannot be loaded: the handler clears it before any process is started. -/
def clearingWorld : World := ⟨.serving, some ⟨[.stopping, .db], .none⟩, 0⟩

end Runs

end Qvd.KvmRelease
