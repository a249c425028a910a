import Qvd.LxcCleanUp
import Qvd.Runs

/-!
The release of a machine in the database by its LXC handler, next to what the host still
holds of the machine: the processes of its container, its lxc-start, and the mounts at
and under its root file system.
-/
namespace Qvd.LxcRelease

open StateTable LxcHandlerTable LxcCleanUp Runs

section Mounts

instance lawfulBEq_strings : LawfulBEq (List String) := inferInstance

/-- The fields of an entry of the mount table that the handler looks at. -/
structure Mount where
  id : ℕ
  parent : ℕ
  point : List String
deriving DecidableEq, Repr

/-- The first entry at a mount point. -/
def mountAt (mounts : List Mount) (point : List String) : Option Mount :=
  mounts.find? (fun m => m.point = point)

def children (mounts : List Mount) (m : Mount) : List Mount :=
  mounts.filter (fun c => c.parent = m.id ∧ c.id ≠ c.parent)

/-- The entries reached from a queue, outer ones first, with a bound on their number. -/
def flatten (mounts : List Mount) : ℕ → List Mount → List Mount
  | 0, _ => []
  | _ + 1, [] => []
  | n + 1, first :: queue => first :: flatten mounts n (queue ++ children mounts first)

/-- umount takes away the latest mount at a point. -/
def umount (mounts : List Mount) (point : List String) : List Mount :=
  (mounts.reverse.eraseP (fun m => m.point = point)).reverse

theorem mem_of_mem_umount {mounts : List Mount} {point : List String} {m : Mount}
    (h : m ∈ umount mounts point) : m ∈ mounts := by
  rw [umount, List.mem_reverse] at h
  exact List.mem_reverse.mp (List.mem_of_mem_eraseP h)

end Mounts

/-- The values of the configuration the clean-up depends on. -/
structure Config where
  rootfs : List String
  killerRetries : ℕ

structure World where
  path : Path
  killerCount : ℕ
  unmounted : List (List String)
  /-- lxc-start runs as a child of the handler. -/
  vmPid : Bool
  /-- The query of _clear_runtime_row is under way. -/
  clearing : Bool
  /-- The state of the file system agent, once there is one. -/
  osFs : Option (List Fs.Name)
  procs : ℕ
  mounts : List Mount
deriving DecidableEq, Repr

/-- The handler's own calls, the agent's, and what happens on the host. -/
inductive Label
  | event (e : Event)
  | finish (e : Event)
  | killLxc (cgroup : Option Bool)
  | unmountFilesystems (worked : Bool)
  | startOsFs
  | startLxc (forked : Bool)
  | checkLxc
  | clearRuntimeRow
  | cleared (e : Event)
  | lxcExits
  | osFsReports (e : Fs.Event)
  | osFsMounts (m : Mount)
  | processes (n : ℕ)
  | containerMounts (m : Mount)
deriving DecidableEq, Repr

/-- What a method that changes nothing of the machine on the host can report. -/
def results : Method → List Event
  | .loadRow | .searchDi | .checkHypervisor | .saveRuntimeRow | .incrRunAttempts
  | .removeFwRules | .allocateHomeFs | .createLxc | .runPrestartHook | .setFwRules
  | .saveState | .incrRunOk | .runPoststartHook | .shutdown | .checkDirtyFlag
  | .runPoststopHook => [.onDone, .onError]
  | .calculateAttrs | .unlinkIface | .heavyDown | .heavyUp | .addToDhcpd | .requestVhciHub
  | .expire | .stopLxc | .releaseCpuset | .destroyLxc | .rmFromDhcpd
  | .returnVhciHub => [.onDone]
  | .killLxc | .unmountFilesystems | .startOsFs | .startLxc | .checkLxc | .clearRuntimeRow
  | .startVmaMonitor | .setStateTimer | .onStopped => []

/-- The two machines, as the tables promise them. -/
structure Machines where
  next : Path → Event → Path
  osFsNext : List Fs.Name → Fs.Event → List Fs.Name
  follows : Follows lxc next
  osFsFollows : Follows Fs.table osFsNext

section Methods

variable (cfg : Config)

/-- The number of pids _kill_lxc collects; a file it cannot open has none. -/
def pids (w : World) (opened : Bool) : ℕ :=
  (if opened then w.procs else 0) + (if w.vmPid then 1 else 0)

/-- What _kill_lxc reports; nothing while it kills and waits. -/
def killLxcResult (w : World) : Option Bool → Option Event
  | none => some .onError
  | some opened =>
    if pids w opened = 0 then some .onDone
    else if cfg.killerRetries < w.killerCount then some .onError
    else none

def killLxcEffect (w : World) (cgroup : Option Bool) : World :=
  { w with
    killerCount :=
      match cgroup with
      | none => w.killerCount
      | some opened => if pids w opened = 0 then w.killerCount else w.killerCount + 1 }

/-- The mount points behind the root file system that have not been tried yet. -/
def remaining (w : World) (mount : Mount) : List (List String) :=
  ((flatten w.mounts w.mounts.length [mount]).map Mount.point).filter
    (fun point => point ∉ w.unmounted)

/-- The mount point _unmount_filesystems takes next. -/
def nextMount (w : World) : Option (List String) :=
  (mountAt w.mounts cfg.rootfs).bind (fun mount => (remaining w mount).getLast?)

def unmountResult (w : World) : Option Event :=
  match mountAt w.mounts cfg.rootfs with
  | none => some .onDone
  | some mount => if remaining w mount = [] then some .onError else none

/-- One call of _unmount_filesystems, with the umount it runs. -/
def unmountEffect (w : World) (worked : Bool) : World :=
  { w with
    unmounted := match nextMount cfg w with
      | none => []
      | some point => point :: w.unmounted
    mounts := match nextMount cfg w with
      | none => w.mounts
      | some point => if worked then umount w.mounts point else w.mounts }

/-- What the agent calls back when it enters a state. -/
def osFsCallback (s : List Fs.Name) : Option Event :=
  if s = [.running] then some .onDone else if s = [.aborted] then some .onError else none

end Methods

/-- The agent has neither got to the end nor given up. -/
def osFsAtWork (w : World) : Bool :=
  match w.osFs with
  | none => false
  | some s => s ≠ [.running] && s ≠ [.aborted]

section Steps

variable (mach : Machines) (cfg : Config)

/-- The event a step hands to the handler's machine. -/
def emitted (w : World) : Label → Option Event
  | .event e => some e
  | .finish e => some e
  | .killLxc cgroup => killLxcResult cfg w cgroup
  | .unmountFilesystems _ => unmountResult cfg w
  | .startLxc _ => some .onDone
  | .checkLxc => some (if w.vmPid then .onDone else .onError)
  | .cleared e => some e
  | .lxcExits => some .onLxcDone
  | .osFsReports e => w.osFs.bind (fun s => osFsCallback (mach.osFsNext s e))
  | .startOsFs | .clearRuntimeRow | .osFsMounts _ | .processes _ | .containerMounts _ => none

/-- What a step changes before the event is handed on. -/
def effect (w : World) : Label → World
  | .killLxc cgroup => killLxcEffect w cgroup
  | .unmountFilesystems worked => unmountEffect cfg w worked
  | .startOsFs => { w with osFs := some (mach.osFsNext [.new] .onRun) }
  | .startLxc forked => { w with vmPid := forked }
  | .clearRuntimeRow => { w with clearing := true }
  | .lxcExits => { w with vmPid := false }
  | .osFsReports e => { w with osFs := w.osFs.map (fun s => mach.osFsNext s e) }
  | .osFsMounts m => { w with mounts := w.mounts ++ [m] }
  | .processes n => { w with procs := n }
  | .containerMounts m => { w with mounts := w.mounts ++ [m] }
  | .event _ | .finish _ | .checkLxc | .cleared _ => w

/-- The method of the state the handler is in. -/
def Running (w : World) (m : Method) : Prop :=
  lxc.methodAt w.path = some m

instance (w : World) (m : Method) : Decidable (Running w m) :=
  inferInstanceAs (Decidable (_ = _))

/-- onDone and onError are reported by methods and callbacks alone. -/
def Enabled (w : World) : Label → Prop
  | .event e => e ≠ .onDone ∧ e ≠ .onError
  | .finish e => e ∈ ((lxc.methodAt w.path).map results).getD []
  | .killLxc _ => Running w .killLxc
  | .unmountFilesystems _ => Running w .unmountFilesystems
  | .startOsFs => Running w .startOsFs ∧ w.osFs = none
  | .startLxc _ => Running w .startLxc
  | .checkLxc => Running w .checkLxc
  | .clearRuntimeRow => Running w .clearRuntimeRow ∧ w.clearing = false
  | .cleared e => w.clearing = true ∧ (e = .onDone ∨ e = .onError)
  | .lxcExits => w.vmPid = true
  | .osFsReports e => osFsAtWork w = true ∧ (e = .onDone ∨ e = .onError)
  | .osFsMounts m => w.osFs = some [.root] ∧ m.point = cfg.rootfs
  | .processes _ => w.vmPid = true ∨ 0 < w.procs
  | .containerMounts m => (w.vmPid = true ∨ 0 < w.procs) ∧ cfg.rootfs <+: m.point

/-- Leaving a state gives up the query under way. -/
def dispatch (w : World) : Option Event → World
  | none => w
  | some e =>
    let path := mach.next w.path e
    if path = w.path then w else { w with path := path, clearing := false }

/-- The runs of a handler, on a host that may hold a container of the same name. -/
def handlerRuns : System World Label where
  init w := w.path = [.new] ∧ w.vmPid = false ∧ w.clearing = false ∧ w.osFs = none ∧
    w.killerCount = 0 ∧ w.unmounted = []
  step w l w' := Enabled cfg w l ∧
    w' = dispatch mach (effect mach cfg w l) (emitted mach cfg w l)

end Steps

section Property

variable (cfg : Config)

/-- No process and no mount of the machine is left on the host. -/
def Free (w : World) : Prop :=
  w.procs = 0 ∧ w.vmPid = false ∧ ∀ m ∈ w.mounts, ¬ cfg.rootfs <+: m.point

/-- The steps by which the handler or its agent mounts or starts something. -/
def Label.starts : Label → Bool
  | .startOsFs | .startLxc _ | .osFsMounts _ => true
  | _ => false

/-- The row is cleared on a free host. -/
def ClearsFree (w : World) (l : Label) : Prop :=
  l = .clearRuntimeRow → Free cfg w

/-- Nothing is mounted or started after the row is cleared. -/
def StartsBefore (past : List (World × Label)) (l : Label) : Prop :=
  l.starts = true → ∀ x ∈ past, x.2 ≠ .clearRuntimeRow

def ReleasesFree (past : List (World × Label)) (w : World) (l : Label) : Prop :=
  ClearsFree cfg w l ∧ StartsBefore past l

/-- The clean-up is skipped only on a free host, the node does not stop the handler while
the file system agent is at work, a cgroup file that cannot be opened has no processes,
and what is mounted under the root file system is so together with it. -/
structure Careful (mach : Machines) (w : World) (l : Label) : Prop where
  skips : ∀ e ∈ emitted mach cfg w l, skipsCleanUp w.path e = true → Free cfg w
  agent : osFsAtWork w = true → w.path = [.starting, .osFs] →
    l ≠ .event .onHkdKill ∧ l ≠ .event .onHkdStop
  opened : l = .killLxc (some false) → w.procs = 0
  mounted : ∀ worked, l = .unmountFilesystems worked →
    mountAt w.mounts cfg.rootfs = none → ∀ m ∈ w.mounts, ¬ cfg.rootfs <+: m.point

end Property

section Invariant

variable (mach : Machines) (cfg : Config)

/-- What the handler has done on the way to the state it is in. -/
structure Inv (w : World) : Prop where
  leaf : w.path ∈ lxc.leaves
  killed : w.path ∈ killedStates → w.procs = 0 ∧ w.vmPid = false
  unmounted : w.path ∈ unmountedStates → ∀ m ∈ w.mounts, ¬ cfg.rootfs <+: m.point
  agent : osFsAtWork w = true → w.path ∈ agentStates
  clearing : w.clearing = true → Running w .clearRuntimeRow

variable {mach cfg} {w : World} {l : Label}

theorem mem_of_mem_unmountEffect {worked : Bool} {m : Mount}
    (h : m ∈ (unmountEffect cfg w worked).mounts) : m ∈ w.mounts := by
  simp only [unmountEffect] at h
  split at h
  · exact h
  · cases worked with
    | false => exact h
    | true => exact mem_of_mem_umount h

theorem effect_path : (effect mach cfg w l).path = w.path := by
  cases l <;> rfl

/-- A host without processes of the machine gets none but by lxc-start. -/
theorem gone_effect (hen : Enabled cfg w l) (hl : ∀ forked, l ≠ .startLxc forked)
    (hgone : w.procs = 0 ∧ w.vmPid = false) :
    (effect mach cfg w l).procs = 0 ∧ (effect mach cfg w l).vmPid = false := by
  cases l with
  | startLxc forked => exact absurd rfl (hl forked)
  | processes n =>
    rcases hen with hpid | hprocs
    · rw [hgone.2] at hpid
      cases hpid
    · omega
  | lxcExits => exact ⟨hgone.1, rfl⟩
  | _ => exact hgone

/-- A host without mounts of the machine gets none but from its processes and the agent. -/
theorem bare_effect (hen : Enabled cfg w l) (hgone : w.procs = 0 ∧ w.vmPid = false)
    (hagent : osFsAtWork w = false) (hbare : ∀ m ∈ w.mounts, ¬ cfg.rootfs <+: m.point) :
    ∀ m ∈ (effect mach cfg w l).mounts, ¬ cfg.rootfs <+: m.point := by
  cases l with
  | unmountFilesystems worked => exact fun m hm => hbare m (mem_of_mem_unmountEffect hm)
  | osFsMounts m =>
    rw [osFsAtWork, hen.1] at hagent
    cases hagent
  | containerMounts m =>
    rcases hen.1 with hpid | hprocs
    · rw [hgone.2] at hpid
      cases hpid
    · omega
  | _ => exact hbare

theorem atWork_effect (hen : Enabled cfg w l)
    (h : osFsAtWork (effect mach cfg w l) = true) : osFsAtWork w = true ∨ l = .startOsFs := by
  cases l with
  | osFsReports e => exact Or.inl hen.1
  | startOsFs => exact Or.inr rfl
  | _ => exact Or.inl h

/-- An agent that calls the handler back is no longer at work. -/
theorem done_of_callback {e : Fs.Event} {r : Event}
    (h : emitted mach cfg w (.osFsReports e) = some r) :
    osFsAtWork (effect mach cfg w (.osFsReports e)) = false := by
  obtain ⟨s, hs, hcb⟩ := Option.bind_eq_some_iff.mp h
  show osFsAtWork { w with osFs := w.osFs.map (fun s => mach.osFsNext s e) } = false
  rw [hs]
  unfold osFsCallback at hcb
  unfold osFsAtWork
  by_cases hrun : mach.osFsNext s e = [.running]
  · simp [hrun]
  · by_cases habort : mach.osFsNext s e = [.aborted]
    · simp [habort]
    · simp [hrun, habort] at hcb

/-- The steps that are one call of a method. -/
def Label.method : Label → Option Method
  | .killLxc _ => some .killLxc
  | .unmountFilesystems _ => some .unmountFilesystems
  | .startLxc _ => some .startLxc
  | .checkLxc => some .checkLxc
  | _ => none

/-- A result comes from the agent, or from the method of the state. -/
theorem source_of_emitted (hI : Inv cfg w) (hen : Enabled cfg w l) {e : Event}
    (he : emitted mach cfg w l = some e) :
    l = .event e ∨ (l = .lxcExits ∧ e = .onLxcDone) ∨
      (w.path ∈ agentStates ∧ ∃ r, l = .osFsReports r) ∨
      ∃ m, Running w m ∧
        (results m ≠ [] ∨ m = .clearRuntimeRow ∨ l.method = some m) := by
  cases l with
  | event e' =>
    obtain rfl := Option.some.inj he
    exact Or.inl rfl
  | finish e' =>
    cases hm : lxc.methodAt w.path with
    | none => simp [Enabled, hm] at hen
    | some m =>
      have hres : e' ∈ results m := by simpa [Enabled, hm] using hen
      exact Or.inr (Or.inr (Or.inr ⟨m, hm, Or.inl (List.ne_nil_of_mem hres)⟩))
  | cleared e' =>
    exact Or.inr (Or.inr (Or.inr ⟨_, hI.clearing hen.1, Or.inr (Or.inl rfl)⟩))
  | lxcExits =>
    obtain rfl := Option.some.inj he
    exact Or.inr (Or.inl ⟨rfl, rfl⟩)
  | osFsReports r => exact Or.inr (Or.inr (Or.inl ⟨hI.agent hen.1, r, rfl⟩))
  | killLxc c => exact Or.inr (Or.inr (Or.inr ⟨_, hen, Or.inr (Or.inr rfl)⟩))
  | unmountFilesystems worked => exact Or.inr (Or.inr (Or.inr ⟨_, hen, Or.inr (Or.inr rfl)⟩))
  | startLxc forked => exact Or.inr (Or.inr (Or.inr ⟨_, hen, Or.inr (Or.inr rfl)⟩))
  | checkLxc => exact Or.inr (Or.inr (Or.inr ⟨_, hen, Or.inr (Or.inr rfl)⟩))
  | startOsFs => cases he
  | clearRuntimeRow => cases he
  | osFsMounts m => cases he
  | processes n => cases he
  | containerMounts m => cases he

theorem not_agentState {m : Method} (hm : Running w m)
    (h : m ≠ .startOsFs ∧ m ≠ .onStopped) : w.path ∉ agentStates := by
  intro hmem
  have hmethods := (agentStates_methods _ hmem).1
  rw [hm] at hmethods
  simp only [List.mem_cons, Option.some.injEq, reduceCtorEq, List.not_mem_nil, or_false]
    at hmethods
  exact hmethods.elim h.1 h.2

/-- In the state of a method that says more than its result, a result is the method's. -/
theorem own_result (hI : Inv cfg w) (hen : Enabled cfg w l) {e : Event}
    (he : emitted mach cfg w l = some e) (hres : e = .onDone ∨ e = .onError) {m : Method}
    (hm : Running w m) (hnone : results m = []) (hclear : m ≠ .clearRuntimeRow)
    (hother : m ≠ .startOsFs ∧ m ≠ .onStopped) : l.method = some m := by
  rcases source_of_emitted hI hen he with rfl | ⟨_, rfl⟩ | ⟨hstate, _⟩ | ⟨m', hm', hsrc⟩
  · rcases hres with rfl | rfl
    · exact absurd rfl hen.1
    · exact absurd rfl hen.2
  · rcases hres with h | h <;> cases h
  · exact absurd hstate (not_agentState hm hother)
  · obtain rfl : m' = m := Option.some.inj (hm'.symm.trans hm)
    rcases hsrc with h | h | h
    · exact absurd hnone h
    · exact absurd h hclear
    · exact h

theorem reports_of_emitted (hI : Inv cfg w) (hen : Enabled cfg w l) {e : Event}
    (he : emitted mach cfg w l = some e) : reports w.path e = true := by
  by_contra hno
  simp only [reports, Bool.or_eq_true, Bool.and_eq_true, decide_eq_true_eq, not_or] at hno
  have hres : e = .onDone ∨ e = .onError := by
    by_cases h : e = .onDone
    · exact Or.inl h
    · exact Or.inr (by_contra fun h' => hno.1 ⟨h, h'⟩)
  have htimer : Running w .setStateTimer := not_not.mp hno.2
  have := own_result hI hen he hres htimer rfl (by decide) (by decide)
  cases l <;> cases this

/-- _kill_lxc reports success only when the container is gone. -/
theorem gone_of_killed (hI : Inv cfg w) (hen : Enabled cfg w l) (hcare : Careful cfg mach w l)
    (he : emitted mach cfg w l = some .onDone) (hm : Running w .killLxc) :
    w.procs = 0 ∧ w.vmPid = false := by
  have hown := own_result hI hen he (Or.inl rfl) hm rfl (by decide) (by decide)
  cases l with
  | killLxc c =>
    cases c with
    | none => cases he
    | some opened =>
      have hpids : pids w opened = 0 := by
        by_contra h
        simp only [emitted, killLxcResult, h, if_false] at he
        split at he <;> cases he
      have hvm : w.vmPid = false := by
        cases hv : w.vmPid with
        | false => rfl
        | true => simp [pids, hv] at hpids
      refine ⟨?_, hvm⟩
      cases opened with
      | false => exact hcare.opened rfl
      | true =>
        simp only [pids, if_true] at hpids
        omega
  | _ => cases hown

/-- _unmount_filesystems reports success only when nothing is mounted. -/
theorem bare_of_unmounted (hI : Inv cfg w) (hen : Enabled cfg w l)
    (hcare : Careful cfg mach w l) (he : emitted mach cfg w l = some .onDone)
    (hm : Running w .unmountFilesystems) : ∀ m ∈ w.mounts, ¬ cfg.rootfs <+: m.point := by
  have hown := own_result hI hen he (Or.inl rfl) hm rfl (by decide) (by decide)
  cases l with
  | unmountFilesystems worked =>
    apply hcare.mounted worked rfl
    cases hat : mountAt w.mounts cfg.rootfs with
    | none => rfl
    | some mount =>
      simp only [emitted, unmountResult, hat] at he
      split at he <;> cases he
  | _ => cases hown

theorem atWork_false_of_state (hI : Inv cfg w) (h : w.path ∉ agentStates) :
    osFsAtWork w = false := by
  cases hwork : osFsAtWork w with
  | false => rfl
  | true => exact absurd (hI.agent hwork) h

/-- What a step keeps while the handler stays in its state. -/
theorem inv_effect (hI : Inv cfg w) (hen : Enabled cfg w l)
    (hl : ∀ forked, l ≠ .startLxc forked) : Inv cfg (effect mach cfg w l) where
  leaf := by
    rw [effect_path]
    exact hI.leaf
  killed h := by
    rw [effect_path] at h
    exact gone_effect hen hl (hI.killed h)
  unmounted h := by
    rw [effect_path] at h
    exact bare_effect hen (hI.killed (unmounted_killed _ h))
      (atWork_false_of_state hI (fun hmem => (agentStates_methods _ hmem).2 h)) (hI.unmounted h)
  agent h := by
    rw [effect_path]
    rcases atWork_effect hen h with hwork | rfl
    · exact hI.agent hwork
    · rw [(method_states _ hI.leaf).2.1 hen.1]
      exact List.mem_cons_self
  clearing h := by
    show lxc.methodAt (effect mach cfg w l).path = _
    rw [effect_path]
    cases l with
    | clearRuntimeRow => exact hen.1
    | _ => exact hI.clearing h

/-- An abandoned agent leaves the handler where nothing more is done. -/
theorem agent_moved (hI : Inv cfg w) (hen : Enabled cfg w l) (hcare : Careful cfg mach w l)
    {e : Event} {q : Path} (he : emitted mach cfg w l = some e) (hedge : EdgeOk w.path e q)
    (hwork : osFsAtWork (effect mach cfg w l) = true) : q ∈ finalStates := by
  rcases atWork_effect hen hwork with hbefore | rfl
  · rcases List.mem_cons.mp (hI.agent hbefore) with hpath | hfinal
    · refine (hedge.agent hpath).resolve_left ?_
      intro hmem
      have hno := hcare.agent hbefore hpath
      rcases source_of_emitted hI hen he with rfl | ⟨_, rfl⟩ | ⟨_, r, rfl⟩ | ⟨m, hm, hsrc⟩
      · have hext := hen
        simp only [List.mem_cons, List.not_mem_nil, or_false] at hmem
        rcases hmem with rfl | rfl | rfl | rfl
        · exact hext.1 rfl
        · exact hext.2 rfl
        · exact hno.1 rfl
        · exact hno.2 rfl
      · revert hmem
        decide
      · rw [done_of_callback he] at hwork
        cases hwork
      · obtain rfl : m = .startOsFs := by
          have hstart : lxc.methodAt [.starting, .osFs] = some .startOsFs := by decide
          rw [← hpath] at hstart
          exact Option.some.inj (hm.symm.trans hstart)
        rcases hsrc with h | h | h
        · exact h rfl
        · cases h
        · cases l <;> cases h
    · exact hedge.closed _ List.mem_cons_self hfinal
  · cases he

/-- What a step keeps when the handler moves on. -/
theorem inv_moved (hI : Inv cfg w) (hen : Enabled cfg w l) (hcare : Careful cfg mach w l)
    {e : Event} {q : Path} (he : emitted mach cfg w l = some e) (hedge : EdgeOk w.path e q) :
    Inv cfg { effect mach cfg w l with path := q, clearing := false } := by
  have hreports := reports_of_emitted hI hen he
  have hskip : skipsCleanUp w.path e = true → Free cfg w := hcare.skips e he
  have hstart : lxc.methodAt w.path ≠ some .startLxc → ∀ forked, l ≠ .startLxc forked := by
    rintro hno forked rfl
    exact hno hen
  refine ⟨hedge.leaf, ?_, ?_, ?_, fun h => by cases h⟩
  · intro hq
    rcases hedge.killed hreports with ⟨hp, hno⟩ | ⟨hm, rfl⟩ | hs | hnq
    · exact gone_effect hen (hstart hno) (hI.killed hp)
    · have hno : lxc.methodAt w.path ≠ some .startLxc := by
        rw [hm]
        decide
      exact gone_effect hen (hstart hno) (gone_of_killed hI hen hcare he hm)
    · have hfree := hskip hs
      exact gone_effect hen (hstart ((method_states _ hI.leaf).2.2.2.2 _ (Event.mem_all e) hs).2)
        ⟨hfree.1, hfree.2.1⟩
    · exact absurd hq hnq
  · intro hq
    rcases hedge.unmounted hreports with hp | ⟨hm, rfl⟩ | hs | hnq
    · exact bare_effect hen (hI.killed (unmounted_killed _ hp))
        (atWork_false_of_state hI (fun hmem => (agentStates_methods _ hmem).2 hp))
        (hI.unmounted hp)
    · have hkilled := (method_states _ hI.leaf).2.2.2.1 hm
      exact bare_effect hen (hI.killed hkilled)
        (atWork_false_of_state hI (not_agentState hm (by decide)))
        (bare_of_unmounted hI hen hcare he hm)
    · have hfree := hskip hs
      have hstate := ((method_states _ hI.leaf).2.2.2.2 _ (Event.mem_all e) hs).1
      exact bare_effect hen ⟨hfree.1, hfree.2.1⟩ (atWork_false_of_state hI hstate) hfree.2.2
    · exact absurd hq hnq
  · intro hwork
    exact List.mem_cons_of_mem _ (agent_moved hI hen hcare he hedge hwork)

/-- A step leaves the handler in its state, or moves it along an edge of the table. -/
theorem step_cases (hI : Inv cfg w) (e? : Option Event) (he : emitted mach cfg w l = e?) :
    (dispatch mach (effect mach cfg w l) e? = effect mach cfg w l ∧
        (∀ e, e? = some e → mach.next w.path e = w.path)) ∨
      ∃ e q, e? = some e ∧ EdgeOk w.path e q ∧ dispatch mach (effect mach cfg w l) e? =
        { effect mach cfg w l with path := q, clearing := false } := by
  cases e? with
  | none => exact Or.inl ⟨rfl, fun e h => by cases h⟩
  | some e =>
    have hnext : mach.next (effect mach cfg w l).path e = lxc.next 3 w.path e := by
      rw [effect_path]
      exact mach.follows.next_eq lxc_total w.path e hI.leaf
    by_cases hstay : mach.next (effect mach cfg w l).path e = (effect mach cfg w l).path
    · refine Or.inl ⟨?_, ?_⟩
      · simp only [dispatch, hstay, if_true]
      · intro e' h
        obtain rfl := Option.some.inj h
        rwa [effect_path] at hstay
    · refine Or.inr ⟨e, mach.next (effect mach cfg w l).path e, rfl, ?_, ?_⟩
      swap
      · simp only [dispatch, hstay, if_false]
      rw [hnext]
      refine (edges_ok _ hI.leaf e (Event.mem_all e)).resolve_left ?_
      rwa [hnext, effect_path] at hstay

theorem inv_init (h : (handlerRuns mach cfg).init w) : Inv cfg w := by
  obtain ⟨hpath, -, hclearing, hfs, -, -⟩ := h
  have hwork : osFsAtWork w = false := by
    rw [osFsAtWork, hfs]
  refine ⟨?_, ?_, ?_, ?_, ?_⟩
  · rw [hpath]
    decide
  · rw [hpath]
    intro h
    exact absurd h (by decide)
  · rw [hpath]
    intro h
    exact absurd h (by decide)
  · rw [hwork]
    intro h
    cases h
  · rw [hclearing]
    intro h
    cases h

theorem inv_step {w' : World} (hI : Inv cfg w) (hcare : Careful cfg mach w l)
    (hs : (handlerRuns mach cfg).step w l w') : Inv cfg w' := by
  obtain ⟨hen, rfl⟩ := hs
  rcases step_cases hI _ rfl with ⟨hsame, hstay⟩ | ⟨e, q, he, hedge, hmove⟩
  · rw [hsame]
    apply inv_effect hI hen
    rintro forked rfl
    have hpath := (method_states _ hI.leaf).2.2.1 hen
    have hnext := hstay .onDone rfl
    rw [mach.follows.next_eq lxc_total _ _ hI.leaf, hpath, next_launching] at hnext
    cases hnext
  · rw [hmove]
    exact inv_moved hI hen hcare he hedge

def Cleared (past : List (World × Label)) : Prop :=
  ∃ x ∈ past, x.2 = .clearRuntimeRow

/-- Once the row is cleared the handler has come to an end, and the agent has before. -/
def AtEnd (past : List (World × Label)) (w : World) : Prop :=
  Cleared past → w.path ∈ releasedStates ∧ osFsAtWork w = false

theorem not_starts_of_atEnd (hen : Enabled cfg w l) (hstate : w.path ∈ releasedStates)
    (hwork : osFsAtWork w = false) : l.starts = false := by
  have hno := released_methods _ hstate
  cases l with
  | startOsFs => exact absurd hen.1 hno.1
  | startLxc forked => exact absurd hen hno.2
  | osFsMounts m =>
    rw [osFsAtWork, hen.1] at hwork
    cases hwork
  | _ => rfl

theorem atEnd_step {past : List (World × Label)} {w' : World} (hI : Inv cfg w)
    (hend : AtEnd past w) (hs : (handlerRuns mach cfg).step w l w') :
    AtEnd ((w, l) :: past) w' := by
  obtain ⟨hen, rfl⟩ := hs
  rintro ⟨x, hx, hclear⟩
  have hbefore : w.path ∈ releasedStates ∧ osFsAtWork w = false := by
    rcases List.mem_cons.mp hx with rfl | hx
    · obtain rfl : l = .clearRuntimeRow := hclear
      have hstate := (method_states _ hI.leaf).1 hen.1
      exact ⟨hstate.2.1, atWork_false_of_state hI hstate.2.2⟩
    · exact hend ⟨x, hx, hclear⟩
  have hwork : osFsAtWork (effect mach cfg w l) = false := by
    cases h : osFsAtWork (effect mach cfg w l) with
    | false => rfl
    | true =>
      rcases atWork_effect hen h with hw | rfl
      · rw [hbefore.2] at hw
        cases hw
      · have := not_starts_of_atEnd hen hbefore.1 hbefore.2
        cases this
  rcases step_cases hI _ rfl with ⟨hsame, -⟩ | ⟨e, q, -, hedge, hmove⟩
  · rw [hsame, effect_path]
    exact ⟨hbefore.1, hwork⟩
  · rw [hmove]
    exact ⟨hedge.closed _ (List.mem_cons_of_mem _ List.mem_cons_self) hbefore.1, hwork⟩

theorem releasesFree_of_inv {past : List (World × Label)} (hI : Inv cfg w)
    (hend : AtEnd past w) (hen : Enabled cfg w l) : ReleasesFree cfg past w l := by
  refine ⟨?_, ?_⟩
  · rintro rfl
    have hstate := ((method_states _ hI.leaf).1 hen.1).1
    have hgone := hI.killed (unmounted_killed _ hstate)
    exact ⟨hgone.1, hgone.2, hI.unmounted hstate⟩
  · intro hstarts x hx hclear
    obtain ⟨hstate, hwork⟩ := hend ⟨x, hx, hclear⟩
    rw [not_starts_of_atEnd hen hstate hwork] at hstarts
    cases hstarts

end Invariant

section Examples

/-- The machines of the two tables. -/
def tables : Machines where
  next := lxc.next 3
  osFsNext := Fs.table.next 2
  follows := lxc_follows
  osFsFollows := follows_next fs_total

instance (cfg : Config) (w : World) : Decidable (Free cfg w) :=
  inferInstanceAs (Decidable (_ ∧ _ ∧ _))

instance (cfg : Config) (w : World) (l : Label) : Decidable (Enabled cfg w l) := by
  cases l <;> unfold Enabled <;> infer_instance

/-- The run a list of steps makes, and whether each of them can be taken. -/
def replay (mach : Machines) (cfg : Config) :
    List (World × Label) → World → List Label → List (World × Label) × World × Bool
  | past, w, [] => (past, w, true)
  | past, w, l :: rest =>
    let r := replay mach cfg ((w, l) :: past)
      (dispatch mach (effect mach cfg w l) (emitted mach cfg w l)) rest
    (r.1, r.2.1, decide (Enabled cfg w l) && r.2.2)

theorem replay_run (mach : Machines) (cfg : Config) (past : List (World × Label)) (w : World)
    (run : (handlerRuns mach cfg).Run past w) (steps : List Label)
    (h : (replay mach cfg past w steps).2.2 = true) :
    (handlerRuns mach cfg).Run (replay mach cfg past w steps).1
      (replay mach cfg past w steps).2.1 := by
  induction steps generalizing past w with
  | nil => exact run
  | cons l rest ih =>
    simp only [replay, Bool.and_eq_true, decide_eq_true_eq] at h
    exact ih _ _ (run.extend ⟨h.1, rfl⟩) h.2

def config : Config where
  rootfs := ["rootfs", "1-fs"]
  killerRetries := 5

/-- A handler on a host where an earlier run has left processes of the container. -/
def fresh (procs : ℕ) : World where
  path := [.new]
  killerCount := 0
  unmounted := []
  vmPid := false
  clearing := false
  osFs := none
  procs := procs
  mounts := []

/-- The row cannot be loaded, so the handler goes to the database at once. -/
def failedStart : List Label :=
  [.event .onCmdStart, .finish .onError, .clearRuntimeRow]

/-- The node stops while the agent unpacks the image: the row is cleared, and then the
agent mounts the root file system. -/
def killedStart : List Label :=
  [.event .onCmdStart, .finish .onDone, .finish .onDone, .finish .onDone, .finish .onDone,
    .finish .onDone, .finish .onDone, .killLxc (some true), .finish .onDone, .finish .onDone,
    .unmountFilesystems true, .startOsFs, .osFsReports .onDone, .osFsReports .onDone,
    .event .onHkdKill, .unmountFilesystems true, .clearRuntimeRow, .osFsReports .onDone,
    .osFsReports .onDone, .osFsReports .onDone, .osFsReports .onDone, .osFsReports .onDone,
    .osFsReports .onDone, .osFsMounts ⟨7, 1, ["rootfs", "1-fs"]⟩]

theorem fresh_run (procs : ℕ) : (handlerRuns tables config).Run [] (fresh procs) :=
  System.Run.start ⟨rfl, rfl, rfl, rfl, rfl, rfl⟩

theorem careful_of_free {mach : Machines} {cfg : Config} {w : World} {l : Label}
    (hfree : Free cfg w) (hwork : osFsAtWork w = false) : Careful cfg mach w l where
  skips _ _ _ := hfree
  agent h := by
    rw [hwork] at h
    cases h
  opened _ := hfree.1
  mounted _ _ _ := hfree.2.2

end Examples

end Qvd.LxcRelease
