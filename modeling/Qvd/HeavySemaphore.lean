import Mathlib
import Qvd.LxcCleanUp
import Qvd.Runs

/-!
The semaphore that bounds the heavy operations of a node, shared by the handlers of its
LXC machines: what each handler asks for, holds and gives back along its state table.
-/
namespace Qvd.HeavySemaphore

open StateTable LxcHandlerTable Runs

abbrev VmId := ℕ

/-- What a request for the semaphore returns; its owner is the handler it calls back. -/
structure Watcher where
  id : ℕ
  owner : VmId
deriving DecidableEq, Repr

/-- A semaphore, as it is documented. A request waits in a queue; the first one is granted
when fewer than size are. Destroying a watcher takes its request or its slot back. -/
structure Semaphore (S : Type*) where
  size : S → ℕ
  waiting : S → List Watcher
  taken : S → List Watcher
  down : S → Watcher → S
  destroy : S → Watcher → S
  grant : S → Option (Watcher × S)
  resize : S → ℕ → S
  down_size : ∀ s x, size (down s x) = size s
  down_waiting : ∀ s x, waiting (down s x) = waiting s ++ [x]
  down_taken : ∀ s x, taken (down s x) = taken s
  destroy_size : ∀ s x, size (destroy s x) = size s
  destroy_waiting : ∀ s x, waiting (destroy s x) = (waiting s).erase x
  destroy_taken : ∀ s x, taken (destroy s x) = (taken s).erase x
  grant_isSome : ∀ s, (grant s).isSome = true ↔
    waiting s ≠ [] ∧ (taken s).length < size s
  grant_size : ∀ s x s', grant s = some (x, s') → size s' = size s
  grant_waiting : ∀ s x s', grant s = some (x, s') → waiting s = x :: waiting s'
  grant_taken : ∀ s x s', grant s = some (x, s') → taken s' = taken s ++ [x]
  resize_size : ∀ s n, size (resize s n) = n
  resize_waiting : ∀ s n, waiting (resize s n) = waiting s
  resize_taken : ∀ s n, taken (resize s n) = taken s

/-- The machine of a handler, as its table promises it. -/
structure Machine where
  next : Path → Event → Path
  follows : Follows lxc next

/-- A handler with the request it waits for and the slot it holds. -/
structure Handler where
  path : Path
  heavyWatcher : Option Watcher
  heavyWatcherDown : Option Watcher
deriving DecidableEq

def Handler.new : Handler where
  path := [.new]
  heavyWatcher := none
  heavyWatcherDown := none

/-- The handlers of a node, their semaphore, and the number of watchers there have been. -/
structure World (S : Type*) where
  handlers : VmId → Option Handler
  semaphore : S
  watchers : ℕ

/-- What a method reports, those of the semaphore apart. -/
def results : Method → List Event
  | .loadRow | .searchDi | .checkHypervisor | .saveRuntimeRow | .incrRunAttempts
  | .killLxc | .removeFwRules | .unmountFilesystems | .startOsFs | .allocateHomeFs | .createLxc
  | .runPrestartHook | .setFwRules | .saveState | .incrRunOk | .runPoststartHook | .shutdown
  | .checkDirtyFlag | .checkLxc | .runPoststopHook | .clearRuntimeRow => [.onDone, .onError]
  | .calculateAttrs | .unlinkIface | .addToDhcpd | .requestVhciHub | .startLxc | .expire
  | .stopLxc | .releaseCpuset | .destroyLxc | .rmFromDhcpd | .returnVhciHub => [.onDone]
  | .heavyDown | .heavyUp | .startVmaMonitor | .setStateTimer | .onStopped => []

inductive Label
  | create (vm : VmId)
  | event (vm : VmId) (e : Event)
  | finish (vm : VmId) (e : Event)
  | heavyDown (vm : VmId)
  | heavyUp (vm : VmId)
  | grant
  | resize (n : ℕ)
deriving DecidableEq, Repr

section Steps

variable {S : Type*} (sem : Semaphore S) (mach : Machine) (w : World S)

/-- Deleting a watcher, when there is one. -/
def drop (s : S) : Option Watcher → S
  | none => s
  | some x => sem.destroy s x

def put (vm : VmId) (h : Option Handler) (s : S) : World S :=
  { w with handlers := fun i => if i = vm then h else w.handlers i, semaphore := s }

/-- An event is handed to a handler. Leaving a state gives up the request it waits for. A
handler that has stopped is released by the daemon, and its watchers with it. -/
def dispatch (vm : VmId) (h : Handler) (s : S) (e : Event) : World S :=
  let path := mach.next h.path e
  if path = h.path then put w vm (some h) s
  else
    let s := drop sem s h.heavyWatcher
    if path = [.stopped] then put w vm none (drop sem s h.heavyWatcherDown)
    else put w vm (some { h with path := path, heavyWatcher := none }) s

def heavyDown (vm : VmId) (h : Handler) : World S :=
  match h.heavyWatcherDown with
  | some _ => dispatch sem mach w vm h w.semaphore .onDone
  | none =>
    let x : Watcher := { id := w.watchers, owner := vm }
    { put w vm (some { h with heavyWatcher := some x }) (sem.down w.semaphore x) with
      watchers := w.watchers + 1 }

/-- The callback of a granted request. -/
def heavyDownCallback (vm : VmId) (h : Handler) (s : S) : World S :=
  dispatch sem mach w vm
    { h with heavyWatcher := none, heavyWatcherDown := h.heavyWatcher } s .onDone

def heavyUp (vm : VmId) (h : Handler) : World S :=
  dispatch sem mach w vm { h with heavyWatcher := none, heavyWatcherDown := none }
    (drop sem (drop sem w.semaphore h.heavyWatcherDown) h.heavyWatcher) .onDone

def after : Label → World S
  | .create vm => put w vm (some Handler.new) w.semaphore
  | .event vm e | .finish vm e =>
    match w.handlers vm with
    | none => w
    | some h => dispatch sem mach w vm h w.semaphore e
  | .heavyDown vm =>
    match w.handlers vm with
    | none => w
    | some h => heavyDown sem mach w vm h
  | .heavyUp vm =>
    match w.handlers vm with
    | none => w
    | some h => heavyUp sem mach w vm h
  | .grant =>
    match sem.grant w.semaphore with
    | none => w
    | some (x, s) =>
      match w.handlers x.owner with
      | none => { w with semaphore := s }
      | some h => heavyDownCallback sem mach w x.owner h s
  | .resize n => { w with semaphore := sem.resize w.semaphore n }

/-- The method of the state a handler is in. -/
def Running (h : Handler) (m : Method) : Prop :=
  lxc.methodAt h.path = some m

/-- onDone and onError are reported by methods alone; a request is made once in a state. -/
def Enabled : Label → Prop
  | .create vm => w.handlers vm = none
  | .event vm e => (w.handlers vm).isSome = true ∧ e ≠ .onDone ∧ e ≠ .onError
  | .finish vm e => ∃ h ∈ w.handlers vm, ∃ m ∈ lxc.methodAt h.path, e ∈ results m
  | .heavyDown vm => ∃ h ∈ w.handlers vm, Running h .heavyDown ∧ h.heavyWatcher = none
  | .heavyUp vm => ∃ h ∈ w.handlers vm, Running h .heavyUp
  | .grant => (sem.grant w.semaphore).isSome = true
  | .resize n => 0 < n

instance (h : Handler) (m : Method) : Decidable (Running h m) :=
  inferInstanceAs (Decidable (_ = _))

instance (l : Label) : Decidable (Enabled sem w l) := by
  cases l <;> unfold Enabled <;> infer_instance

def heavyRuns : System (World S) Label where
  init w := (∀ vm, w.handlers vm = none) ∧ sem.waiting w.semaphore = [] ∧
    sem.taken w.semaphore = [] ∧ 0 < sem.size w.semaphore
  step w l w' := Enabled sem w l ∧ w' = after sem mach w l

end Steps

section Property

/-- The states a handler can stay in without bound, or in which it waits for a timer only. -/
def parkedStates : List Path :=
  [[.running, .monitoring], [.debugging, .monitoring], [.dirty], [.zombie, .config, .delaying],
    [.zombie, .reap, .delaying], [.zombie, .db, .delaying]]

variable {S : Type*} (sem : Semaphore S)

/-- A handler that neither waits for the semaphore nor is parked. -/
def Working (h : Handler) : Prop :=
  h.heavyWatcher = none ∧ h.path ∉ parkedStates

/-- A handler holds one slot at most, a slot that is taken has a handler that has not
stopped, and none that is parked; and when no handler at work holds a slot, the first
request is granted. -/
structure SlotsOk (w : World S) : Prop where
  atMostOne : ∀ vm, (sem.taken w.semaphore).countP (fun x => x.owner = vm) ≤ 1
  returned : ∀ x ∈ sem.taken w.semaphore, ∃ h, w.handlers x.owner = some h ∧ h.path ≠ [.stopped]
  parked : ∀ x ∈ sem.taken w.semaphore, ∀ h, w.handlers x.owner = some h →
    h.path ∉ parkedStates
  granted : (∀ x ∈ sem.taken w.semaphore, ∀ h, w.handlers x.owner = some h → ¬ Working h) →
    sem.waiting w.semaphore ≠ [] → (sem.grant w.semaphore).isSome = true

/-- The events that take a handler to dirty or to a delay of zombie, by its state. -/
def parks (path : Path) (e : Event) : Bool :=
  e = .onDirty || (e = .onError &&
    (path = [.zombie, .config, .calculatingAttrs] || path = [.zombie, .db, .clearingRuntimeRow] ||
      ([.zombie, .reap].isPrefixOf path && path ≠ [.zombie, .reap, .savingState] &&
        path ≠ [.zombie, .reap, .checkingLxc] && path ≠ [.zombie, .reap, .destroyingLxc])))

/-- No handler that holds a slot is handed such an event. -/
def StepOk (w : World S) : Label → Prop
  | .event vm e | .finish vm e => ∀ h, w.handlers vm = some h → h.heavyWatcherDown ≠ none →
      parks h.path e = false
  | _ => True

end Property

section Table

/-- The states that follow the return of the slot. -/
def lightStates : List Path :=
  [[.running, .monitoring], [.running, .expiring], [.debugging, .monitoring]]

/-- The states a handler waits in for something that has gone wrong. -/
def delayedStates : List Path :=
  [[.dirty], [.zombie, .config, .delaying], [.zombie, .reap, .delaying], [.zombie, .db, .delaying]]

theorem heavyDown_states : ∀ p ∈ lightStates ++ delayedStates, lxc.methodAt p ≠ some .heavyDown ∧
    lxc.methodAt p ≠ some .heavyUp := by
  decide +kernel

theorem edges_parked : ∀ p ∈ lxc.leaves, ∀ e ∈ Event.all,
    (lxc.next 3 p e ∈ lightStates → p ∈ lightStates ∨ (lxc.methodAt p = some .heavyUp ∧ e = .onDone)) ∧
    (lxc.next 3 p e ∈ delayedStates → p ∈ delayedStates ∨ parks p e = true) ∧
    (parks p e = true → lxc.next 3 p e ∈ delayedStates) := by
  decide +kernel

end Table

section Invariant

variable {S : Type*} (sem : Semaphore S)

/-- Who waits and who holds a slot, by the handlers and by the semaphore. -/
structure Inv (w : World S) : Prop where
  leaf : ∀ vm h, w.handlers vm = some h → h.path ∈ lxc.leaves ∧ h.path ≠ [.stopped]
  waiting : ∀ x, x ∈ sem.waiting w.semaphore ↔
    ∃ h, w.handlers x.owner = some h ∧ h.heavyWatcher = some x
  taken : ∀ x, x ∈ sem.taken w.semaphore ↔
    ∃ h, w.handlers x.owner = some h ∧ h.heavyWatcherDown = some x
  owner : ∀ vm h x, w.handlers vm = some h →
    h.heavyWatcher = some x ∨ h.heavyWatcherDown = some x → x.owner = vm ∧ x.id < w.watchers
  waiting_nodup : (sem.waiting w.semaphore).Nodup
  taken_nodup : (sem.taken w.semaphore).Nodup
  exclusive : ∀ vm h, w.handlers vm = some h → h.heavyWatcherDown ≠ none → h.heavyWatcher = none
  asks : ∀ vm h, w.handlers vm = some h → h.heavyWatcher ≠ none → Running h .heavyDown
  light : ∀ vm h, w.handlers vm = some h → h.path ∈ lightStates → h.heavyWatcherDown = none
  size : 0 < sem.size w.semaphore

end Invariant

section Watchers

variable {S : Type*} {sem : Semaphore S} {s : S}

theorem drop_size (x : Option Watcher) : sem.size (drop sem s x) = sem.size s := by
  cases x with
  | none => rfl
  | some x => exact sem.destroy_size s x

theorem drop_waiting_nodup (x : Option Watcher) (h : (sem.waiting s).Nodup) :
    (sem.waiting (drop sem s x)).Nodup := by
  cases x with
  | none => exact h
  | some x =>
    show (sem.waiting (sem.destroy s x)).Nodup
    rw [sem.destroy_waiting]
    exact h.erase x

theorem drop_taken_nodup (x : Option Watcher) (h : (sem.taken s).Nodup) :
    (sem.taken (drop sem s x)).Nodup := by
  cases x with
  | none => exact h
  | some x =>
    show (sem.taken (sem.destroy s x)).Nodup
    rw [sem.destroy_taken]
    exact h.erase x

theorem mem_drop_waiting {x : Option Watcher} (h : (sem.waiting s).Nodup) {y : Watcher} :
    y ∈ sem.waiting (drop sem s x) ↔ y ∈ sem.waiting s ∧ x ≠ some y := by
  cases x with
  | none => simp [drop]
  | some x =>
    show y ∈ sem.waiting (sem.destroy s x) ↔ _
    rw [sem.destroy_waiting, h.mem_erase_iff, Ne, Ne, Option.some.injEq, eq_comm, and_comm]

theorem mem_drop_taken {x : Option Watcher} (h : (sem.taken s).Nodup) {y : Watcher} :
    y ∈ sem.taken (drop sem s x) ↔ y ∈ sem.taken s ∧ x ≠ some y := by
  cases x with
  | none => simp [drop]
  | some x =>
    show y ∈ sem.taken (sem.destroy s x) ↔ _
    rw [sem.destroy_taken, h.mem_erase_iff, Ne, Ne, Option.some.injEq, eq_comm, and_comm]

end Watchers

section Dispatch

variable {S : Type*} {sem : Semaphore S} {mach : Machine} {w : World S} {vm : VmId}
  {h : Handler} {e : Event}

theorem Machine.next_eq (mach : Machine) {path : Path} (hleaf : path ∈ lxc.leaves) (e : Event) :
    mach.next path e = lxc.next 3 path e :=
  mach.follows.next_eq lxc_total path e hleaf

theorem next_leaf (mach : Machine) {path : Path} (hleaf : path ∈ lxc.leaves) (e : Event) :
    mach.next path e ∈ lxc.leaves := by
  rw [mach.next_eq hleaf]
  rcases LxcCleanUp.edges_ok path hleaf e (Event.mem_all e) with hsame | hok
  · exact hsame.symm ▸ hleaf
  · exact hok.leaf

/-- What is known when one handler is being changed: it is this one, the semaphore goes
with it, and the other handlers are those of before. -/
structure Changing (sem : Semaphore S) (w : World S) (vm : VmId) (o : Option Handler) (s : S) :
    Prop where
  others : ∀ i, i ≠ vm → ∀ h, w.handlers i = some h →
    (h.path ∈ lxc.leaves ∧ h.path ≠ [.stopped]) ∧
    (h.heavyWatcherDown ≠ none → h.heavyWatcher = none) ∧
    (h.heavyWatcher ≠ none → Running h .heavyDown) ∧
    (h.path ∈ lightStates → h.heavyWatcherDown = none) ∧
    ∀ x, h.heavyWatcher = some x ∨ h.heavyWatcherDown = some x → x.owner = i ∧ x.id < w.watchers
  waiting : ∀ x, x ∈ sem.waiting s ↔ if x.owner = vm then o.bind Handler.heavyWatcher = some x
    else ∃ h, w.handlers x.owner = some h ∧ h.heavyWatcher = some x
  taken : ∀ x, x ∈ sem.taken s ↔ if x.owner = vm then o.bind Handler.heavyWatcherDown = some x
    else ∃ h, w.handlers x.owner = some h ∧ h.heavyWatcherDown = some x
  owner : ∀ h x, o = some h → h.heavyWatcher = some x ∨ h.heavyWatcherDown = some x →
    x.owner = vm ∧ x.id < w.watchers
  waiting_nodup : (sem.waiting s).Nodup
  taken_nodup : (sem.taken s).Nodup
  exclusive : ∀ h, o = some h → h.heavyWatcherDown ≠ none → h.heavyWatcher = none
  asks : ∀ h, o = some h → h.heavyWatcher ≠ none → Running h .heavyDown
  leaf : ∀ h, o = some h → h.path ∈ lxc.leaves ∧ h.path ≠ [.stopped]
  size : 0 < sem.size s

theorem Inv.changing (hI : Inv sem w) (vm : VmId) :
    Changing sem w vm (w.handlers vm) w.semaphore where
  others i _ h hi := ⟨hI.leaf i h hi, hI.exclusive i h hi, hI.asks i h hi, hI.light i h hi,
    fun x => hI.owner i h x hi⟩
  waiting x := by
    rw [hI.waiting]
    by_cases hx : x.owner = vm
    · simp only [hx, if_true, Option.bind_eq_some_iff]
    · simp only [if_neg hx]
  taken x := by
    rw [hI.taken]
    by_cases hx : x.owner = vm
    · simp only [hx, if_true, Option.bind_eq_some_iff]
    · simp only [if_neg hx]
  owner h x hw := hI.owner vm h x hw
  waiting_nodup := hI.waiting_nodup
  taken_nodup := hI.taken_nodup
  exclusive h hw := hI.exclusive vm h hw
  asks h hw := hI.asks vm h hw
  leaf h hw := hI.leaf vm h hw
  size := hI.size

theorem Changing.inv {o : Option Handler} (hC : Changing sem w vm o s)
    (hlight : ∀ h, o = some h → h.path ∈ lightStates → h.heavyWatcherDown = none) :
    Inv sem (put w vm o s) := by
  obtain ⟨hothers, hwaiting, htaken, howner, hn, hn', hexclusive, hasks, hleaf, hsize⟩ := hC
  have hput : ∀ i, (put w vm o s).handlers i = if i = vm then o else w.handlers i := fun _ => rfl
  refine ⟨?_, ?_, ?_, ?_, hn, hn', ?_, ?_, ?_, hsize⟩
  · intro i h hi
    rw [hput] at hi
    grind
  · intro x
    rw [hput]
    refine (hwaiting x).trans ?_
    by_cases hx : x.owner = vm
    · simp only [if_pos hx, Option.bind_eq_some_iff]
    · simp only [if_neg hx]
  · intro x
    rw [hput]
    refine (htaken x).trans ?_
    by_cases hx : x.owner = vm
    · simp only [if_pos hx, Option.bind_eq_some_iff]
    · simp only [if_neg hx]
  · intro i h x hi
    rw [hput] at hi
    show _ → x.owner = i ∧ x.id < w.watchers
    grind
  · intro i h hi
    rw [hput] at hi
    grind
  · intro i h hi
    rw [hput] at hi
    grind
  · intro i h hi
    rw [hput] at hi
    grind

/-- Leaving a state for another one. -/
theorem Changing.leave (hC : Changing sem w vm (some h) s) {path : Path}
    (hpath : path ∈ lxc.leaves ∧ path ≠ [.stopped]) :
    Changing sem w vm (some { h with path := path, heavyWatcher := none })
      (drop sem s h.heavyWatcher) := by
  obtain ⟨hothers, hwaiting, htaken, howner, hn, hn', hexclusive, hasks, hleaf, hsize⟩ := hC
  have howner := howner h
  have hexclusive := hexclusive h rfl
  refine ⟨hothers, ?_, ?_, ?_, drop_waiting_nodup _ hn, drop_taken_nodup _ hn', ?_, ?_, ?_, ?_⟩
  · intro x
    rw [mem_drop_waiting hn, hwaiting]
    grind
  · intro x
    rw [mem_drop_taken hn', htaken]
    grind
  · grind
  · grind
  · grind
  · grind
  · rwa [drop_size]

/-- Giving the slot back. -/
theorem Changing.giveBack (hC : Changing sem w vm (some h) s) :
    Changing sem w vm (some { h with heavyWatcherDown := none })
      (drop sem s h.heavyWatcherDown) := by
  obtain ⟨hothers, hwaiting, htaken, howner, hn, hn', hexclusive, hasks, hleaf, hsize⟩ := hC
  have howner := howner h
  have hexclusive := hexclusive h rfl
  have hasks := hasks h rfl
  have hleaf := hleaf h rfl
  refine ⟨hothers, ?_, ?_, ?_, drop_waiting_nodup _ hn, drop_taken_nodup _ hn', ?_, ?_, ?_, ?_⟩
  · intro x
    rw [mem_drop_waiting hn, hwaiting]
    grind
  · intro x
    rw [mem_drop_taken hn', htaken]
    grind
  · grind
  · grind
  · rintro h' h'' hne
    obtain rfl := Option.some.inj h''
    exact hasks hne
  · grind
  · rwa [drop_size]

theorem Changing.remove (hC : Changing sem w vm (some h) s) (hnone : h.heavyWatcher = none)
    (hnone' : h.heavyWatcherDown = none) : Changing sem w vm none s where
  others := hC.others
  waiting x := by
    rw [hC.waiting]
    simp only [Option.bind_some, Option.bind_none, hnone]
  taken x := by
    rw [hC.taken]
    simp only [Option.bind_some, Option.bind_none, hnone']
  owner := by simp
  waiting_nodup := hC.waiting_nodup
  taken_nodup := hC.taken_nodup
  exclusive := by simp
  asks := by simp
  leaf := by simp
  size := hC.size

/-- An event keeps the invariant, also when the handler has been changed just before. -/
theorem Changing.inv_dispatch (hC : Changing sem w vm (some h) s)
    (hstay : h.path ∈ lightStates → h.heavyWatcherDown = none)
    (hgo : mach.next h.path e ∈ lightStates → h.heavyWatcherDown = none) :
    Inv sem (dispatch sem mach w vm h s e) := by
  have hleaf := next_leaf mach (hC.leaf h rfl).1 e
  unfold dispatch
  dsimp only
  by_cases hsame : mach.next h.path e = h.path
  · rw [if_pos hsame]
    apply hC.inv
    rintro h' hh'
    obtain rfl := Option.some.inj hh'
    exact hstay
  · rw [if_neg hsame]
    by_cases hstop : mach.next h.path e = [.stopped]
    · rw [if_pos hstop]
      have hleave := hC.leave (hC.leaf h rfl)
      exact (hleave.giveBack.remove rfl rfl).inv (by simp)
    · rw [if_neg hstop]
      apply (hC.leave ⟨hleaf, hstop⟩).inv
      rintro h' hh'
      obtain rfl := Option.some.inj hh'
      exact hgo

end Dispatch

section Step

variable {S : Type*} {sem : Semaphore S} {mach : Machine} {w : World S} {l : Label} {vm : VmId}
  {h : Handler} {e : Event}

theorem not_light (hup : lxc.methodAt h.path ≠ some .heavyUp ∨ e ≠ .onDone)
    (hleaf : h.path ∈ lxc.leaves) (hlight : mach.next h.path e ∈ lightStates) :
    h.path ∈ lightStates := by
  rw [mach.next_eq hleaf] at hlight
  refine ((edges_parked h.path hleaf e (Event.mem_all e)).1 hlight).resolve_right ?_
  rintro ⟨hm, he⟩
  exact hup.elim (fun hne => hne hm) fun hne => hne he

theorem Inv.event (hI : Inv sem w) (hw : w.handlers vm = some h)
    (hup : lxc.methodAt h.path ≠ some .heavyUp ∨ e ≠ .onDone) :
    Inv sem (dispatch sem mach w vm h w.semaphore e) := by
  have hC := hI.changing vm
  rw [hw] at hC
  refine hC.inv_dispatch (hI.light vm h hw) fun hlight => hI.light vm h hw ?_
  exact not_light hup (hI.leaf vm h hw).1 hlight

/-- A request for the semaphore. -/
theorem Inv.request (hI : Inv sem w) (hw : w.handlers vm = some h) (hm : Running h .heavyDown)
    (hnone : h.heavyWatcherDown = none) (hnone' : h.heavyWatcher = none) :
    Inv sem { put w vm (some { h with heavyWatcher := some ⟨w.watchers, vm⟩ })
      (sem.down w.semaphore ⟨w.watchers, vm⟩) with watchers := w.watchers + 1 } := by
  have hC := hI.changing vm
  rw [hw] at hC
  obtain ⟨hothers, hwaiting, htaken, howner, hn, hn', hexclusive, hasks, hleaf, hsize⟩ := hC
  have hfresh : (⟨w.watchers, vm⟩ : Watcher) ∉ sem.waiting w.semaphore := by
    intro hmem
    rw [hwaiting, if_pos rfl] at hmem
    have := howner h _ rfl (Or.inl hmem)
    exact absurd this.2 (Nat.lt_irrefl _)
  have hnew : Changing sem { w with watchers := w.watchers + 1 } vm
      (some { h with heavyWatcher := some ⟨w.watchers, vm⟩ })
      (sem.down w.semaphore ⟨w.watchers, vm⟩) := by
    refine ⟨?_, ?_, ?_, ?_, ?_, ?_, ?_, ?_, ?_, ?_⟩
    · intro i hi h' hw'
      obtain ⟨hleaf', hex', hasks', hlight', howner'⟩ := hothers i hi h' hw'
      exact ⟨hleaf', hex', hasks', hlight', fun x hx =>
        ⟨(howner' x hx).1, Nat.lt_succ_of_lt (howner' x hx).2⟩⟩
    · intro x
      rw [sem.down_waiting, List.mem_append, List.mem_singleton, hwaiting]
      by_cases hx : x.owner = vm
      · simp [hx, hnone', eq_comm]
      · simp only [if_neg hx]
        refine or_iff_left fun h => ?_
        rw [h] at hx
        exact hx rfl
    · intro x
      rw [sem.down_taken, htaken]
      rfl
    · intro h' x hh' hx
      obtain rfl := Option.some.inj hh'
      rcases hx with hx | hx
      · obtain rfl := Option.some.inj hx
        exact ⟨rfl, Nat.lt_succ_self _⟩
      · exact absurd (hnone.symm.trans hx) (by simp)
    · rw [sem.down_waiting]
      exact List.nodup_append.mpr ⟨hn, by simp, by
        intro a ha b hb
        rw [List.mem_singleton.mp hb]
        rintro rfl
        exact hfresh ha⟩
    · rw [sem.down_taken]
      exact hn'
    · intro h' hh' hne
      obtain rfl := Option.some.inj hh'
      exact absurd hnone hne
    · intro h' hh' _
      obtain rfl := Option.some.inj hh'
      exact hm
    · intro h' hh'
      obtain rfl := Option.some.inj hh'
      exact hleaf h rfl
    · rw [sem.down_size]
      exact hsize
  apply hnew.inv
  intro h' hh' hlight
  obtain rfl := Option.some.inj hh'
  exact hnone

theorem exists_of_grant (hI : Inv sem w) {x : Watcher} {s : S}
    (hg : sem.grant w.semaphore = some (x, s)) :
    ∃ h, w.handlers x.owner = some h ∧ h.heavyWatcher = some x := by
  rw [← hI.waiting, sem.grant_waiting _ _ _ hg]
  exact List.mem_cons_self ..

/-- A granted request, before the callback. -/
theorem Inv.grant (hI : Inv sem w) {x : Watcher} {s : S}
    (hg : sem.grant w.semaphore = some (x, s)) (hw : w.handlers x.owner = some h)
    (hx : h.heavyWatcher = some x) : Changing sem w x.owner
      (some { h with heavyWatcher := none, heavyWatcherDown := h.heavyWatcher }) s := by
  have hC := hI.changing x.owner
  rw [hw] at hC
  obtain ⟨hothers, hwaiting, htaken, howner, hn, hn', hexclusive, hasks, hleaf, hsize⟩ := hC
  have hnone : h.heavyWatcherDown = none := by
    by_contra hne
    rw [hexclusive h rfl hne] at hx
    cases hx
  have hqueue := sem.grant_waiting _ _ _ hg
  have htook := sem.grant_taken _ _ _ hg
  rw [hqueue] at hn hwaiting
  obtain ⟨hnew, hn⟩ := List.nodup_cons.mp hn
  have hnotTaken : x ∉ sem.taken w.semaphore := by
    rw [htaken, if_pos rfl]
    simp [hnone]
  refine ⟨hothers, ?_, ?_, ?_, hn, ?_, ?_, ?_, ?_, ?_⟩
  · intro y
    have hy := hwaiting y
    rw [List.mem_cons] at hy
    grind
  · intro y
    have hy := htaken y
    rw [htook, List.mem_append, List.mem_singleton]
    grind
  · intro h' y hh' hy
    obtain rfl := Option.some.inj hh'
    simp only [reduceCtorEq, false_or] at hy
    exact howner h y rfl (Or.inl hy)
  · rw [htook]
    exact List.nodup_append.mpr ⟨hn', by simp, by
      intro a ha b hb
      rw [List.mem_singleton.mp hb]
      rintro rfl
      exact hnotTaken ha⟩
  · intro h' hh' _
    obtain rfl := Option.some.inj hh'
    rfl
  · intro h' hh' hne
    obtain rfl := Option.some.inj hh'
    exact absurd rfl hne
  · intro h' hh'
    obtain rfl := Option.some.inj hh'
    exact hleaf h rfl
  · rw [sem.grant_size _ _ _ hg]
    exact hsize

theorem inv_after (hI : Inv sem w) (hen : Enabled sem w l) : Inv sem (after sem mach w l) := by
  cases l with
  | create vm =>
    have hC := hI.changing vm
    rw [show w.handlers vm = none from hen] at hC
    have hnew : Changing sem w vm (some Handler.new) w.semaphore :=
      { hC with
        owner := by
          rintro h x hh (hx | hx)
          · obtain rfl := Option.some.inj hh
            cases hx
          · obtain rfl := Option.some.inj hh
            cases hx
        exclusive := by simp [Handler.new]
        asks := by simp [Handler.new]
        leaf := by
          intro h hh
          obtain rfl := Option.some.inj hh
          decide }
    apply hnew.inv
    rintro h hh -
    obtain rfl := Option.some.inj hh
    rfl
  | event vm e =>
    obtain ⟨h, hw⟩ := Option.isSome_iff_exists.mp hen.1
    simp only [after, hw]
    exact hI.event hw (Or.inr hen.2.1)
  | finish vm e =>
    obtain ⟨h, hw, m, hm, hres⟩ := hen
    rw [Option.mem_def] at hw
    simp only [after, hw]
    apply hI.event hw (Or.inl _)
    rw [show lxc.methodAt h.path = some m from hm]
    rintro hup
    obtain rfl := Option.some.inj hup
    cases hres
  | heavyDown vm =>
    obtain ⟨h, hw, hm, hnone⟩ := hen
    rw [Option.mem_def] at hw
    simp only [after, hw]
    unfold heavyDown
    split
    · apply hI.event hw (Or.inl _)
      rw [show lxc.methodAt h.path = some .heavyDown from hm]
      simp
    · rename_i hdown
      exact hI.request hw hm hdown hnone
  | heavyUp vm =>
    obtain ⟨h, hw, hm⟩ := hen
    rw [Option.mem_def] at hw
    simp only [after, hw, heavyUp]
    have hC := hI.changing vm
    rw [hw] at hC
    have hgiven := hC.giveBack.leave (hC.leaf h rfl)
    exact hgiven.inv_dispatch (fun _ => rfl) fun _ => rfl
  | grant =>
    obtain ⟨⟨x, s⟩, hg⟩ := Option.isSome_iff_exists.mp hen
    obtain ⟨h, hw, hx⟩ := exists_of_grant hI hg
    simp only [after, hg, hw, heavyDownCallback]
    have hm : lxc.methodAt h.path = some .heavyDown := hI.asks x.owner h hw (by simp [hx])
    have hnot : h.path ∉ lightStates := fun hlight =>
      (heavyDown_states h.path (List.mem_append_left _ hlight)).1 hm
    refine (hI.grant hg hw hx).inv_dispatch (fun hlight => absurd hlight hnot) fun hlight => ?_
    exact absurd (not_light (Or.inl (by simp [hm])) (hI.leaf x.owner h hw).1 hlight) hnot
  | resize n =>
    refine ⟨hI.leaf, ?_, ?_, hI.owner, ?_, ?_, hI.exclusive, hI.asks, hI.light, ?_⟩
    · intro x
      show x ∈ sem.waiting (sem.resize w.semaphore n) ↔ _
      rw [sem.resize_waiting]
      exact hI.waiting x
    · intro x
      show x ∈ sem.taken (sem.resize w.semaphore n) ↔ _
      rw [sem.resize_taken]
      exact hI.taken x
    · show (sem.waiting (sem.resize w.semaphore n)).Nodup
      rw [sem.resize_waiting]
      exact hI.waiting_nodup
    · show (sem.taken (sem.resize w.semaphore n)).Nodup
      rw [sem.resize_taken]
      exact hI.taken_nodup
    · show 0 < sem.size (sem.resize w.semaphore n)
      rw [sem.resize_size]
      exact hen

end Step

section Slots

variable {S : Type*} {sem : Semaphore S} {mach : Machine} {w : World S} {l : Label} {vm : VmId}
  {h : Handler} {e : Event}

/-- What the invariant leaves open: no slot is held through a delay. -/
def DelaysFree (w : World S) : Prop :=
  ∀ vm h, w.handlers vm = some h → h.path ∈ delayedStates → h.heavyWatcherDown = none

theorem parked_iff : ∀ p : Path, p ∈ parkedStates → p ∈ lightStates ∨ p ∈ delayedStates := by
  have hall : ∀ p ∈ parkedStates, p ∈ lightStates ∨ p ∈ delayedStates := by decide
  exact hall

theorem delayed_parked : ∀ p ∈ delayedStates, p ∈ parkedStates := by
  decide

theorem countP_le_one {α : Type*} {l : List α} {p : α → Bool} (hn : l.Nodup)
    (hone : ∀ a ∈ l, ∀ b ∈ l, p a = true → p b = true → a = b) : l.countP p ≤ 1 := by
  rw [List.countP_eq_length_filter]
  have hfilter : ∀ a ∈ l.filter p, ∀ b ∈ l.filter p, a = b := by
    intro a ha b hb
    obtain ⟨ha, hpa⟩ := List.mem_filter.mp ha
    obtain ⟨hb, hpb⟩ := List.mem_filter.mp hb
    exact hone a ha b hb hpa hpb
  have hn := hn.filter p
  match l.filter p, hn, hfilter with
  | [], _, _ => exact Nat.zero_le _
  | [_], _, _ => exact Nat.le_refl _
  | a :: b :: rest, hn, hfilter =>
    have hab := hfilter a (by simp) b (by simp)
    simp [hab] at hn

theorem slotsOk_iff (hI : Inv sem w) : SlotsOk sem w ↔ DelaysFree w := by
  constructor
  · intro hok vm h hw hdelayed
    by_contra hne
    obtain ⟨x, hx⟩ := Option.ne_none_iff_exists'.mp hne
    have howner := (hI.owner vm h x hw (Or.inr hx)).1
    have htaken : x ∈ sem.taken w.semaphore := (hI.taken x).mpr ⟨h, howner ▸ hw, hx⟩
    exact hok.parked x htaken h (howner ▸ hw) (delayed_parked _ hdelayed)
  · intro hfree
    have hparked : ∀ x ∈ sem.taken w.semaphore, ∀ h, w.handlers x.owner = some h →
        h.path ∉ parkedStates := by
      intro x hx h hw hparked
      obtain ⟨h', hw', hdown⟩ := (hI.taken x).mp hx
      obtain rfl := Option.some.inj (hw'.symm.trans hw)
      have hnone : h'.heavyWatcherDown = none :=
        (parked_iff _ hparked).elim (hI.light _ _ hw) (hfree _ _ hw)
      rw [hnone] at hdown
      cases hdown
    refine ⟨fun vm => ?_, fun x hx => ?_, hparked, fun hworking hwaiting => ?_⟩
    · apply countP_le_one hI.taken_nodup
      intro x hx y hy hxvm hyvm
      simp only [decide_eq_true_eq] at hxvm hyvm
      obtain ⟨h, hw, hdown⟩ := (hI.taken x).mp hx
      obtain ⟨h', hw', hdown'⟩ := (hI.taken y).mp hy
      rw [hxvm] at hw
      rw [hyvm] at hw'
      obtain rfl := Option.some.inj (hw.symm.trans hw')
      exact Option.some.inj (hdown.symm.trans hdown')
    · obtain ⟨h, hw, -⟩ := (hI.taken x).mp hx
      exact ⟨h, hw, (hI.leaf _ h hw).2⟩
    · have hempty : sem.taken w.semaphore = [] := by
        rw [List.eq_nil_iff_forall_not_mem]
        intro x hx
        obtain ⟨h, hw, hdown⟩ := (hI.taken x).mp hx
        exact hworking x hx h hw
          ⟨hI.exclusive _ h hw (by simp [hdown]), hparked x hx h hw⟩
      rw [sem.grant_isSome, hempty]
      exact ⟨hwaiting, hI.size⟩

/-- The handlers after one of them has been handed an event. -/
theorem dispatch_handlers (i : VmId) (s : S) : (dispatch sem mach w vm h s e).handlers i =
    if i = vm then
      if mach.next h.path e = h.path then some h
      else if mach.next h.path e = [.stopped] then none
      else some { h with path := mach.next h.path e, heavyWatcher := none }
    else w.handlers i := by
  unfold dispatch put
  dsimp only
  split
  · rfl
  · split <;> rfl

/-- A handler goes to a delay by the events that lead there, and by no other. -/
theorem delayed_iff (mach : Machine) (hleaf : h.path ∈ lxc.leaves)
    (hfree : h.path ∈ delayedStates → h.heavyWatcherDown = none) :
    (mach.next h.path e ∈ delayedStates → h.heavyWatcherDown = none) ↔
      (h.heavyWatcherDown ≠ none → parks h.path e = false) := by
  rw [mach.next_eq hleaf]
  obtain ⟨-, hto, hfrom⟩ := edges_parked h.path hleaf e (Event.mem_all e)
  grind

theorem delaysFree_dispatch (hfree : DelaysFree w) (hleaf : h.path ∈ lxc.leaves)
    (hself : h.path ∈ delayedStates → h.heavyWatcherDown = none) (s : S) :
    DelaysFree (dispatch sem mach w vm h s e) ↔
      (h.heavyWatcherDown ≠ none → parks h.path e = false) := by
  have hstopped : ([.stopped] : Path) ∉ delayedStates := by decide
  rw [← delayed_iff mach hleaf hself]
  constructor
  · intro hafter hdelayed
    have hvm := hafter vm
    rw [dispatch_handlers, if_pos rfl] at hvm
    grind
  · intro hgo i h' hw
    rw [dispatch_handlers] at hw
    have hi := hfree i h'
    grind

theorem parks_onDone (path : Path) : parks path .onDone = false := by
  simp [parks]

theorem delaysFree_after (mach : Machine) (hI : Inv sem w) (hfree : DelaysFree w)
    (hen : Enabled sem w l) :
    DelaysFree (after sem mach w l) ↔ StepOk w l := by
  cases l with
  | create vm =>
    apply iff_of_true _ trivial
    intro i h hw hdelayed
    change (if i = vm then some Handler.new else w.handlers i) = some h at hw
    split at hw
    · obtain rfl := Option.some.inj hw
      rfl
    · exact hfree i h hw hdelayed
  | event vm e =>
    obtain ⟨h, hw⟩ := Option.isSome_iff_exists.mp hen.1
    simp only [after, hw, StepOk]
    rw [delaysFree_dispatch hfree (hI.leaf vm h hw).1 (hfree vm h hw)]
    simp
  | finish vm e =>
    obtain ⟨h, hw, -⟩ := hen
    rw [Option.mem_def] at hw
    simp only [after, hw, StepOk]
    rw [delaysFree_dispatch hfree (hI.leaf vm h hw).1 (hfree vm h hw)]
    simp
  | heavyDown vm =>
    obtain ⟨h, hw, -⟩ := hen
    rw [Option.mem_def] at hw
    apply iff_of_true _ trivial
    simp only [after, hw]
    unfold heavyDown
    split
    · rw [delaysFree_dispatch hfree (hI.leaf vm h hw).1 (hfree vm h hw)]
      exact fun _ => parks_onDone _
    · rename_i hnone
      intro i h' hw' hdelayed
      change (if i = vm then some _ else w.handlers i) = some h' at hw'
      split at hw'
      · obtain rfl := Option.some.inj hw'
        exact hnone
      · exact hfree i h' hw' hdelayed
  | heavyUp vm =>
    obtain ⟨h, hw, -⟩ := hen
    rw [Option.mem_def] at hw
    apply iff_of_true _ trivial
    simp only [after, hw, heavyUp]
    refine (delaysFree_dispatch hfree ?_ ?_ _).mpr fun _ => parks_onDone _
    · exact (hI.leaf vm h hw).1
    · exact fun _ => rfl
  | grant =>
    obtain ⟨⟨x, s⟩, hg⟩ := Option.isSome_iff_exists.mp hen
    obtain ⟨h, hw, hx⟩ := exists_of_grant hI hg
    have hm : lxc.methodAt h.path = some .heavyDown := hI.asks x.owner h hw (by simp [hx])
    apply iff_of_true _ trivial
    simp only [after, hg, hw, heavyDownCallback]
    refine (delaysFree_dispatch hfree ?_ ?_ _).mpr fun _ => parks_onDone _
    · exact (hI.leaf x.owner h hw).1
    · exact fun hdelayed =>
        absurd hm (heavyDown_states h.path (List.mem_append_right _ hdelayed)).1
  | resize n => exact iff_of_true hfree trivial

theorem inv_init (h : (heavyRuns sem mach).init w) : Inv sem w ∧ DelaysFree w := by
  obtain ⟨hnone, hwaiting, htaken, hsize⟩ := h
  refine ⟨⟨?_, ?_, ?_, ?_, ?_, ?_, ?_, ?_, ?_, hsize⟩, ?_⟩
  all_goals simp [hnone, hwaiting, htaken, DelaysFree]

/-- The slots are handled as they should be in every state of a run exactly if no handler
that holds one is ever sent to a delay. -/
theorem slots_ok_iff {past : List (World S × Label)} {w : World S}
    (run : (heavyRuns sem mach).Run past w) :
    Always (SlotsOk sem) past w ↔ AllSteps StepOk past := by
  have hinv : Always (Inv sem) past w :=
    run.always (fun _ h => (inv_init h).1) fun w l w' hI hstep => hstep.2 ▸ inv_after hI hstep.1
  have hslots : Always (SlotsOk sem) past w ↔
      Always (fun w => Inv sem w ∧ DelaysFree w) past w := by
    constructor
    · exact fun h => ⟨⟨hinv.1, (slotsOk_iff hinv.1).mp h.1⟩,
        fun e he => ⟨hinv.2 e he, (slotsOk_iff (hinv.2 e he)).mp (h.2 e he)⟩⟩
    · exact fun h => ⟨(slotsOk_iff h.1.1).mpr h.1.2,
        fun e he => (slotsOk_iff (h.2 e he).1).mpr (h.2 e he).2⟩
  rw [hslots]
  apply run.always_iff_allSteps (fun _ => inv_init)
  rintro w l w' ⟨hI, hfree⟩ ⟨hen, rfl⟩
  rw [← delaysFree_after mach hI hfree hen]
  exact and_iff_right (inv_after hI hen)

end Slots

section Reaping

/-- The plain semaphore: its size, its queue and its slots. -/
structure Fifo where
  size : ℕ
  waiting : List Watcher
  taken : List Watcher

def Fifo.grant (s : Fifo) : Option (Watcher × Fifo) :=
  match s.waiting with
  | [] => none
  | x :: rest =>
    if s.taken.length < s.size then some (x, { s with waiting := rest, taken := s.taken ++ [x] })
    else none

theorem Fifo.grant_eq {s s' : Fifo} {x : Watcher} (h : s.grant = some (x, s')) :
    s.waiting = x :: s'.waiting ∧ s'.taken = s.taken ++ [x] ∧ s'.size = s.size := by
  unfold grant at h
  split at h
  · cases h
  · rename_i rest hqueue
    split at h
    · obtain ⟨rfl, rfl⟩ := Prod.mk.inj (Option.some.inj h)
      exact ⟨hqueue, rfl, rfl⟩
    · cases h

def fifo : Semaphore Fifo where
  size := Fifo.size
  waiting := Fifo.waiting
  taken := Fifo.taken
  down s x := { s with waiting := s.waiting ++ [x] }
  destroy s x := { s with waiting := s.waiting.erase x, taken := s.taken.erase x }
  grant := Fifo.grant
  resize s n := { s with size := n }
  down_size _ _ := rfl
  down_waiting _ _ := rfl
  down_taken _ _ := rfl
  destroy_size _ _ := rfl
  destroy_waiting _ _ := rfl
  destroy_taken _ _ := rfl
  grant_isSome s := by
    unfold Fifo.grant
    split
    · rename_i hnil
      simp [hnil]
    · rename_i hqueue
      split <;> simp_all
  grant_size _ _ _ h := (Fifo.grant_eq h).2.2
  grant_waiting _ _ _ h := (Fifo.grant_eq h).1
  grant_taken _ _ _ h := (Fifo.grant_eq h).2.1
  resize_size _ _ := rfl
  resize_waiting _ _ := rfl
  resize_taken _ _ := rfl

def tableMachine : Machine where
  next := lxc.next 3
  follows := lxc_follows

def emptyNode : World Fifo where
  handlers := fun _ => none
  semaphore := { size := 1, waiting := [], taken := [] }
  watchers := 0

/-- The history and the last state of a list of steps. -/
def trail (labels : List Label) : List (World Fifo × Label) × World Fifo :=
  labels.foldl (fun t l => ((t.2, l) :: t.1, after fifo tableMachine t.2 l)) ([], emptyNode)

def enabledAlong (w : World Fifo) : List Label → Bool
  | [] => true
  | l :: labels => decide (Enabled fifo w l) && enabledAlong (after fifo tableMachine w l) labels

theorem run_trail (labels : List Label) (h : enabledAlong emptyNode labels = true) :
    (heavyRuns fifo tableMachine).Run (trail labels).1 (trail labels).2 := by
  have key : ∀ (labels : List Label) (past : List (World Fifo × Label)) (w : World Fifo),
      (heavyRuns fifo tableMachine).Run past w → enabledAlong w labels = true →
      (heavyRuns fifo tableMachine).Run
        (labels.foldl (fun t l => ((t.2, l) :: t.1, after fifo tableMachine t.2 l)) (past, w)).1
        (labels.foldl (fun t l => ((t.2, l) :: t.1, after fifo tableMachine t.2 l)) (past, w)).2 := by
    intro labels
    induction labels with
    | nil => exact fun _ _ run _ => run
    | cons l labels ih =>
      intro past w run halong
      rw [enabledAlong, Bool.and_eq_true, decide_eq_true_eq] at halong
      exact ih _ _ (run.extend ⟨halong.1, rfl⟩) halong.2
  exact key labels [] emptyNode (.start ⟨fun _ => rfl, rfl, rfl, Nat.one_pos⟩) h

/-- A handler for a machine found running takes the slot to reap it. -/
def reaping : List Label :=
  [.create 1, .event 1 .onCmdCatchZombie, .finish 1 .onDone, .finish 1 .onDone, .finish 1 .onDone,
    .finish 1 .onDone, .heavyDown 1, .grant]

theorem slots_ok_reaping : Always (SlotsOk fifo) (trail reaping).1 (trail reaping).2 := by
  apply (slots_ok_iff (run_trail reaping (by decide))).mpr
  have hlabels : ∀ x ∈ (trail reaping).1, x.2 ∈ reaping := by
    simp [trail, reaping]
  have hstep : ∀ l ∈ reaping, ∀ w : World Fifo, StepOk w l := by
    simp [reaping, StepOk, parks]
  exact fun x hx => hstep x.2 (hlabels x hx) x.1

/-- The processes of the container cannot be killed: the handler waits with the slot. -/
theorem slots_not_ok : ∃ past w, (heavyRuns fifo tableMachine).Run past w ∧ ¬ SlotsOk fifo w := by
  refine ⟨_, _, run_trail (reaping ++ [.finish 1 .onError, .finish 1 .onError])
    (by decide), fun hok => ?_⟩
  have hparked := hok.parked ⟨0, 1⟩ (by decide)
    ⟨[.zombie, .reap, .delaying], none, some ⟨0, 1⟩⟩ (by decide)
  exact hparked (by decide)

end Reaping

end Qvd.HeavySemaphore
