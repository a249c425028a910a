import Qvd.LxcHandlerTable
import Qvd.Runs
import Mathlib.Data.Fintype.Basic

/-!
The file system agents of the machines that use one disk image on a node. They share the
directory the image is unpacked into, the place where they unpack it, and one lock file.
All of them live in one process: what an agent does without waiting is not interrupted.
Locks taken on separately opened files are taken to exclude each other.
-/
namespace Qvd.BaseImages

open StateTable LxcHandlerTable Runs
open LxcHandlerTable.Fs (table)

abbrev Path := List Fs.Name

/-- How much of the image tar has unpacked into a directory. -/
inductive Content
  | partly | whole
deriving DecidableEq, Repr

/-- A directory next to the base images, with the agent that made it. -/
structure Dir (ι : Type*) where
  content : Content
  maker : Option ι
deriving DecidableEq, Repr

/-- The subclasses an agent is blessed into. -/
inductive Driver
  | aufs | bind | overlayfs | unionfsFuse | xfs | btrfs | zfs
deriving DecidableEq, Repr

/-- The drivers whose _make_tmp_dir_for_os_image runs a command. -/
def Driver.makesByCommand : Driver → Bool
  | .xfs | .btrfs | .zfs => true
  | .aufs | .bind | .overlayfs | .unionfsFuse => false

/-- What an agent waits for. -/
inductive Wait (δ : Type*)
  | run
  | enter
  | retry
  | mkdir
  | tar
  | zfsSnapshot (tmp : δ)
  | zfsRename (tmp : δ) (renamed : Bool)
  | command
  | rm (tmp : δ) (removed : Bool)
  | nothing
deriving DecidableEq, Repr

structure Agent (δ : Type*) where
  path : Path
  wait : Wait δ
  /-- The open lock file, once there is one, and whether it is locked. -/
  untarLock : Option Bool
  basefsTmp : Option δ
  /-- A temporary directory could not be removed. -/
  rmFailed : Bool

structure World (ι δ : Type*) where
  agents : ι → Agent δ
  dirs : δ → Option (Dir ι)
  basefs : Option Content

def Agent.new {δ : Type*} : Agent δ where
  path := [.new]
  wait := .run
  untarLock := none
  basefsTmp := none
  rmFailed := false

/-- How opening and locking the lock file ends. -/
inductive Flock
  | unopened | taken | busy | failed
deriving DecidableEq, Repr

/-- How the making of a directory ends; it may be there after an error. -/
inductive Mkdir
  | made | left | failed
deriving DecidableEq, Repr

/-- How far _place_os_image of the zfs driver gets. -/
inductive ZfsPlace
  | basefsUnresolved | tmpUnresolved | started
deriving DecidableEq, Repr

/-- The calls of methods and the ends of the commands they run. -/
inductive Act (δ : Type*)
  | run
  | lockOsImage (result : Flock)
  | checkBaseDir
  | findTmpDir (tmp : δ)
  | makeTmpDir (tmp : δ) (result : Mkdir)
  | startMkdir
  | mkdirEnds (tmp : δ) (result : Mkdir)
  | untarMissing
  | startTar
  | tarEnds (tmp : δ) (worked : Bool)
  | placeOsImage (tmp : δ) (renamed : Bool)
  | zfsPlace (tmp : δ) (result : ZfsPlace)
  | zfsSnapshotEnds (tmp : δ) (worked : Bool)
  | zfsRenames (tmp : δ)
  | zfsRenameEnds (tmp : δ) (renamed worked : Bool)
  | analyzeOsImage (worked : Bool)
  | unlockOsImage
  | work (worked : Bool)
  | startCommand
  | commandEnds (worked : Bool)
  | tell
  | deleteTmp (resolved : Bool)
  | rmRemoves (tmp : δ)
  | rmEnds (tmp : δ) (removed worked : Bool)
deriving DecidableEq, Repr

section Steps

variable {ι δ : Type*} (next : Path → Fs.Event → Path) (driver : Driver)

/-- The method of the state just entered is to be called. -/
def Agent.At (a : Agent δ) (m : Fs.Method) : Prop :=
  a.wait = .enter ∧ table.methodAt a.path = some m

/-- The methods that touch neither the lock nor the place where images are unpacked. -/
def workMethods : List Fs.Method :=
  [.removeOldWorkdir, .makeWorkdir, .removeOldOverlay, .makeOverlay, .makeRoot]

def outcome (worked : Bool) : Fs.Event :=
  if worked then .onDone else .onError

/-- An event moves the agent to another state, whose method is called, or does nothing. -/
def Agent.fire (a : Agent δ) (e : Fs.Event) : Agent δ :=
  if next a.path e = a.path then { a with wait := .nothing }
  else { a with path := next a.path e, wait := .enter }

variable [DecidableEq ι] [DecidableEq δ]

def World.put (w : World ι δ) (i : ι) (a : Agent δ) : World ι δ :=
  { w with agents := Function.update w.agents i a }

/-- mkdir and mkpath leave a directory that is there as it is. -/
def World.makeDir (w : World ι δ) (i : ι) (tmp : δ) (result : Mkdir) : World ι δ :=
  match result with
  | .failed => w
  | .made | .left =>
    { w with dirs := Function.update w.dirs tmp (some ((w.dirs tmp).getD ⟨.partly, some i⟩)) }

def World.setContent (w : World ι δ) (tmp : δ) (content : Content) : World ι δ :=
  { w with
    dirs := Function.update w.dirs tmp
      ((w.dirs tmp).map (fun d => { d with content := content })) }

def World.removeDir (w : World ι δ) (tmp : δ) : World ι δ :=
  { w with dirs := Function.update w.dirs tmp none }

/-- The directory takes the place of the base image. -/
def World.renameDir (w : World ι δ) (tmp : δ) : World ι δ :=
  { w.removeDir tmp with basefs := (w.dirs tmp).map Dir.content }

/-- The acts an agent can take. -/
def Enabled (w : World ι δ) (i : ι) : Act δ → Prop
  | .run => (w.agents i).wait = .run
  | .lockOsImage result =>
    ((w.agents i).At .lockOsImage ∨ (w.agents i).wait = .retry ∧ result ≠ .unopened) ∧
      (result = .taken → ∀ j, j ≠ i → (w.agents j).untarLock ≠ some true)
  | .checkBaseDir => (w.agents i).At .checkBaseDir
  | .findTmpDir tmp => (w.agents i).At .findTmpDirForOsImage ∧ w.dirs tmp = none
  | .makeTmpDir tmp result =>
    (w.agents i).At .makeTmpDirForOsImage ∧ (w.agents i).basefsTmp = some tmp ∧
      (driver.makesByCommand = true → result = .failed)
  | .startMkdir => (w.agents i).At .makeTmpDirForOsImage ∧ driver.makesByCommand = true
  | .mkdirEnds tmp _ => (w.agents i).wait = .mkdir ∧ (w.agents i).basefsTmp = some tmp
  | .untarMissing => (w.agents i).At .untarOsImage
  | .startTar => (w.agents i).At .untarOsImage
  | .tarEnds tmp _ => (w.agents i).wait = .tar ∧ (w.agents i).basefsTmp = some tmp
  | .placeOsImage tmp renamed =>
    (w.agents i).At .placeOsImage ∧ driver ≠ .zfs ∧ (w.agents i).basefsTmp = some tmp ∧
      (renamed = true → (w.dirs tmp).isSome = true)
  | .zfsPlace tmp _ =>
    (w.agents i).At .placeOsImage ∧ driver = .zfs ∧ (w.agents i).basefsTmp = some tmp
  | .zfsSnapshotEnds tmp _ => (w.agents i).wait = .zfsSnapshot tmp
  | .zfsRenames tmp =>
    (w.agents i).wait = .zfsRename tmp false ∧ (w.dirs tmp).isSome = true ∧ w.basefs = none
  | .zfsRenameEnds tmp renamed worked =>
    (w.agents i).wait = .zfsRename tmp renamed ∧ (worked = true → renamed = true)
  | .analyzeOsImage _ => (w.agents i).At .analyzeOsImage
  | .unlockOsImage => (w.agents i).At .unlockOsImage
  | .work _ => ∃ m ∈ workMethods, (w.agents i).At m
  | .startCommand => ∃ m ∈ workMethods, (w.agents i).At m
  | .commandEnds _ => (w.agents i).wait = .command
  | .tell => (w.agents i).At .tellRunning ∨ (w.agents i).At .tellError
  | .deleteTmp resolved =>
    (w.agents i).At .deleteTmp ∧ (resolved = false → driver = .zfs)
  | .rmRemoves tmp => (w.agents i).wait = .rm tmp false
  | .rmEnds tmp removed worked =>
    (w.agents i).wait = .rm tmp removed ∧ (worked = true → removed = true)

/-- The world after an act of an agent. -/
def effect (w : World ι δ) (i : ι) (act : Act δ) : World ι δ :=
  let a := w.agents i
  match act with
  | .run => w.put i (a.fire next .onRun)
  | .lockOsImage .unopened => w.put i (a.fire next .onError)
  | .lockOsImage .taken => w.put i ({ a with untarLock := some true }.fire next .onDone)
  | .lockOsImage .busy => w.put i { a with untarLock := some false, wait := .retry }
  | .lockOsImage .failed => w.put i ({ a with untarLock := none }.fire next .onError)
  | .checkBaseDir => w.put i (a.fire next (outcome w.basefs.isSome))
  | .findTmpDir tmp => w.put i ({ a with basefsTmp := some tmp }.fire next .onDone)
  | .makeTmpDir tmp result =>
    (w.makeDir i tmp result).put i (a.fire next (outcome (result = .made)))
  | .startMkdir => w.put i { a with wait := .mkdir }
  | .mkdirEnds tmp result =>
    (w.makeDir i tmp result).put i (a.fire next (outcome (result = .made)))
  | .untarMissing => w.put i (a.fire next .onError)
  | .startTar => w.put i { a with wait := .tar }
  | .tarEnds tmp worked =>
    (w.setContent tmp (if worked then .whole else .partly)).put i
      (a.fire next (outcome worked))
  | .placeOsImage tmp renamed =>
    -- a base image already in place is an internal error, but no error for the machine
    if w.basefs.isSome then w.put i (a.fire next .onDone)
    else if renamed then
      (w.renameDir tmp).put i ({ a with basefsTmp := none }.fire next .onDone)
    else w.put i (a.fire next .onError)
  | .zfsPlace tmp result =>
    -- a base image already in place ends in LOGDIE
    if w.basefs.isSome then w.put i { a with wait := .nothing }
    else
      match result with
      | .basefsUnresolved => w.put i (a.fire next .onError)
      | .tmpUnresolved => w.put i ({ a with basefsTmp := none }.fire next .onError)
      | .started => w.put i { a with basefsTmp := none, wait := .zfsSnapshot tmp }
  | .zfsSnapshotEnds tmp worked =>
    if worked then w.put i { a with wait := .zfsRename tmp false }
    else w.put i (a.fire next .onError)
  | .zfsRenames tmp => (w.renameDir tmp).put i { a with wait := .zfsRename tmp true }
  | .zfsRenameEnds _ _ worked => w.put i (a.fire next (outcome worked))
  | .analyzeOsImage worked => w.put i (a.fire next (outcome worked))
  | .unlockOsImage => w.put i ({ a with untarLock := none }.fire next .onDone)
  | .work worked => w.put i (a.fire next (outcome worked))
  | .startCommand => w.put i { a with wait := .command }
  | .commandEnds worked => w.put i (a.fire next (outcome worked))
  | .tell => w.put i { a with wait := .nothing }
  | .deleteTmp resolved =>
    match a.basefsTmp with
    | none => w.put i (a.fire next .onDone)
    | some tmp =>
      if (w.dirs tmp).isNone then w.put i (a.fire next .onDone)
      else if resolved then
        (w.setContent tmp .partly).put i { a with wait := .rm tmp false }
      else w.put i ({ a with rmFailed := true }.fire next .onError)
  | .rmRemoves tmp => (w.removeDir tmp).put i { a with wait := .rm tmp true }
  | .rmEnds _ _ worked =>
    w.put i ({ a with rmFailed := a.rmFailed || !worked }.fire next (outcome worked))

/-- The runs of any number of agents, each with its next act chosen freely. -/
def fsRuns : System (World ι δ) (ι × Act δ) where
  init w := (∀ i, w.agents i = .new) ∧ ∀ tmp d, w.dirs tmp = some d → d.maker = none
  step w l w' := (∀ j, j ≠ l.1 → (w.agents j).wait ≠ .enter) ∧
    Enabled driver w l.1 l.2 ∧ w' = effect next w l.1 l.2

end Steps

section Property

variable {ι δ : Type*}

/-- The states between the taking and the release of the lock. -/
def lockedPaths : List Path :=
  [[.base, .checkingDir], [.base, .unpacking, .findingTmpDir],
    [.base, .unpacking, .makingTmpDir], [.base, .unpacking, .untaring],
    [.base, .unpacking, .placing], [.base, .analyze], [.base, .unlocking]]

/-- The states an agent ends up in. -/
def finalPaths : List Path :=
  [[.running], [.aborted]]

def Agent.Between (a : Agent δ) : Prop :=
  a.untarLock = some true ∨ a.path ∈ lockedPaths

/-- The agent has no directory left. -/
def World.Clean (w : World ι δ) (i : ι) : Prop :=
  ∀ tmp d, w.dirs tmp = some d → d.maker ≠ some i

/-- One agent at a time has the lock, nothing is unpacked once the base image is there, and
agents that got to the end or gave up hold no lock and have left no directory behind. -/
structure Safe (w : World ι δ) : Prop where
  exclusive : ∀ i j, (w.agents i).Between → (w.agents j).Between → i = j
  locked : ∀ i, (w.agents i).path ∈ lockedPaths → (w.agents i).untarLock = some true
  once : ∀ i, (w.agents i).wait = .tar → w.basefs = none
  released : ∀ i, (w.agents i).path ∈ finalPaths → (w.agents i).untarLock = none
  cleaned : ∀ i, (w.agents i).path ∈ finalPaths →
    (w.agents i).rmFailed = true ∨ w.Clean i

/-- The base image comes into being by the renaming of a directory its renamer has made and
the whole image is in, and directories become whole by the success of tar. -/
structure Placed (w : World ι δ) (l : ι × Act δ) (w' : World ι δ) : Prop where
  renamed : w'.basefs = w.basefs ∨ w.basefs = none ∧ w'.basefs = some .whole ∧
    ∃ tmp, (l.2 = .placeOsImage tmp true ∨ l.2 = .zfsRenames tmp) ∧
      w.dirs tmp = some ⟨.whole, some l.1⟩ ∧ w'.dirs tmp = none
  unpacked : ∀ tmp d, w'.dirs tmp = some d → d.content = .whole →
    w.dirs tmp = some d ∨ l.2 = .tarEnds tmp true

/-- The zfs driver gives up after it has forgotten the temporary directory. -/
def LosesTmp : Act δ → Prop
  | .zfsPlace _ .tmpUnresolved => True
  | .zfsSnapshotEnds _ worked => worked = false
  | .zfsRenameEnds _ renamed worked => renamed = false ∧ worked = false
  | _ => False

end Property

section Invariant

variable {ι δ : Type*}

/-- The agent has made no directory, but for the one it knows of. -/
def OnlyAt (dirs : δ → Option (Dir ι)) (i : ι) (tmp : Option δ) : Prop :=
  ∀ t d, dirs t = some d → d.maker = some i → tmp = some t

/-- The directory the agent knows of is its own. -/
def Own (dirs : δ → Option (Dir ι)) (i : ι) (tmp : Option δ) : Prop :=
  ∀ t ∈ tmp, ∀ d, dirs t = some d → d.maker = some i

/-- The states after the release of the lock and before the end. -/
def laterPaths : List Path :=
  [[.workdir, .removingOld], [.workdir, .making], [.overlay, .removingOld],
    [.overlay, .making], [.root]]

/-- What an agent has done on the way to where it is. -/
inductive AgentOk (basefs : Option Content) (dirs : δ → Option (Dir ι)) (i : ι) :
    Agent δ → Prop
  | new (honly : OnlyAt dirs i none) : AgentOk basefs dirs i ⟨[.new], .run, none, none, false⟩
  | locking (honly : OnlyAt dirs i none) :
    AgentOk basefs dirs i ⟨[.base, .locking], .enter, none, none, false⟩
  | retrying (honly : OnlyAt dirs i none) :
    AgentOk basefs dirs i ⟨[.base, .locking], .retry, some false, none, false⟩
  | checking (honly : OnlyAt dirs i none) :
    AgentOk basefs dirs i ⟨[.base, .checkingDir], .enter, some true, none, false⟩
  | finding (honly : OnlyAt dirs i none) (hbase : basefs = none) :
    AgentOk basefs dirs i
      ⟨[.base, .unpacking, .findingTmpDir], .enter, some true, none, false⟩
  | making {tmp : δ} {wait : Wait δ} (hwait : wait ∈ [.enter, .mkdir])
      (honly : OnlyAt dirs i none) (hbase : basefs = none) (htmp : dirs tmp = none) :
    AgentOk basefs dirs i
      ⟨[.base, .unpacking, .makingTmpDir], wait, some true, some tmp, false⟩
  | untaring {tmp : δ} {wait : Wait δ} (hwait : wait ∈ [.enter, .tar])
      (honly : OnlyAt dirs i (some tmp)) (hbase : basefs = none)
      (htmp : dirs tmp = some ⟨.partly, some i⟩) :
    AgentOk basefs dirs i ⟨[.base, .unpacking, .untaring], wait, some true, some tmp, false⟩
  | placing {tmp : δ} (honly : OnlyAt dirs i (some tmp)) (hbase : basefs = none)
      (htmp : dirs tmp = some ⟨.whole, some i⟩) :
    AgentOk basefs dirs i ⟨[.base, .unpacking, .placing], .enter, some true, some tmp, false⟩
  | zfsPlacing {tmp : δ} {wait : Wait δ} (hwait : wait ∈ [.zfsSnapshot tmp, .zfsRename tmp false])
      (honly : OnlyAt dirs i (some tmp)) (hbase : basefs = none)
      (htmp : dirs tmp = some ⟨.whole, some i⟩) :
    AgentOk basefs dirs i ⟨[.base, .unpacking, .placing], wait, some true, none, false⟩
  | zfsPlaced {tmp : δ} (honly : OnlyAt dirs i none) :
    AgentOk basefs dirs i
      ⟨[.base, .unpacking, .placing], .zfsRename tmp true, some true, none, false⟩
  | analyzing (honly : OnlyAt dirs i none) :
    AgentOk basefs dirs i ⟨[.base, .analyze], .enter, some true, none, false⟩
  | unlocking (honly : OnlyAt dirs i none) :
    AgentOk basefs dirs i ⟨[.base, .unlocking], .enter, some true, none, false⟩
  | later {path : Path} {wait : Wait δ} (hpath : path ∈ laterPaths)
      (hwait : wait ∈ [.enter, .command]) (honly : OnlyAt dirs i none) :
    AgentOk basefs dirs i ⟨path, wait, none, none, false⟩
  | running {wait : Wait δ} (hwait : wait ∈ [.enter, .nothing]) (honly : OnlyAt dirs i none) :
    AgentOk basefs dirs i ⟨[.running], wait, none, none, false⟩
  | abortUnlocking {lock : Option Bool} {tmp : Option δ} (honly : OnlyAt dirs i tmp)
      (hown : Own dirs i tmp) :
    AgentOk basefs dirs i ⟨[.aborting, .unlocking], .enter, lock, tmp, false⟩
  | abortDeleting {tmp : Option δ} (honly : OnlyAt dirs i tmp) (hown : Own dirs i tmp) :
    AgentOk basefs dirs i ⟨[.aborting, .deletingTmpDir], .enter, none, tmp, false⟩
  | removing {tmp : δ} {d : Dir ι} (honly : OnlyAt dirs i (some tmp)) (htmp : dirs tmp = some d)
      (hown : d.maker = some i) :
    AgentOk basefs dirs i
      ⟨[.aborting, .deletingTmpDir], .rm tmp false, none, some tmp, false⟩
  | removed {t : δ} {tmp : Option δ} (honly : OnlyAt dirs i none) :
    AgentOk basefs dirs i ⟨[.aborting, .deletingTmpDir], .rm t true, none, tmp, false⟩
  | aborted {wait : Wait δ} {tmp : Option δ} {failed : Bool} (hwait : wait ∈ [.enter, .nothing])
      (hclean : failed = true ∨ OnlyAt dirs i none) :
    AgentOk basefs dirs i ⟨[.aborted], wait, none, tmp, failed⟩

/-- The agents are all right, and one of them at most has the lock. -/
structure Inv (w : World ι δ) : Prop where
  agents : ∀ i, AgentOk w.basefs w.dirs i (w.agents i)
  exclusive : ∀ i j, (w.agents i).untarLock = some true →
    (w.agents j).untarLock = some true → i = j

/-- What the acts of another agent leave alone. -/
structure Undisturbed (w w' : World ι δ) (j : ι) : Prop where
  own : ∀ tmp d, d.maker = some j → (w'.dirs tmp = some d ↔ w.dirs tmp = some d)
  basefs : (w.agents j).untarLock = some true → w'.basefs = w.basefs
  free : (w.agents j).untarLock = some true → ∀ tmp, w.dirs tmp = none → w'.dirs tmp = none

theorem OnlyAt.frame {dirs dirs' : δ → Option (Dir ι)} {j : ι} {tmp : Option δ}
    (h : OnlyAt dirs j tmp)
    (hown : ∀ tmp d, d.maker = some j → (dirs' tmp = some d ↔ dirs tmp = some d)) :
    OnlyAt dirs' j tmp := fun t d hd hmaker => h t d ((hown t d hmaker).mp hd) hmaker

/-- An agent that waits does not notice what others do. -/
theorem AgentOk.frame {w w' : World ι δ} {j : ι}
    (h : AgentOk w.basefs w.dirs j (w.agents j)) (hwait : (w.agents j).wait ≠ .enter)
    (hsame : Undisturbed w w' j) : AgentOk w'.basefs w'.dirs j (w.agents j) := by
  obtain ⟨hown, hbasefs, hfree⟩ := hsame
  generalize w.agents j = a at h hwait hbasefs hfree
  cases h with
  | new honly => exact .new (honly.frame hown)
  | locking _ | checking _ | finding _ _ | placing _ _ _ | analyzing _ | unlocking _
  | abortUnlocking _ _ | abortDeleting _ _ => exact absurd rfl hwait
  | retrying honly => exact .retrying (honly.frame hown)
  | making hw honly hbase htmp =>
    exact .making hw (honly.frame hown) ((hbasefs rfl).trans hbase) (hfree rfl _ htmp)
  | untaring hw honly hbase htmp =>
    exact .untaring hw (honly.frame hown) ((hbasefs rfl).trans hbase) ((hown _ _ rfl).mpr htmp)
  | zfsPlacing hw honly hbase htmp =>
    exact .zfsPlacing hw (honly.frame hown) ((hbasefs rfl).trans hbase)
      ((hown _ _ rfl).mpr htmp)
  | zfsPlaced honly => exact .zfsPlaced (honly.frame hown)
  | later hpath hw honly => exact .later hpath hw (honly.frame hown)
  | running hw honly => exact .running hw (honly.frame hown)
  | removing honly htmp hmaker =>
    exact .removing (honly.frame hown) ((hown _ _ hmaker).mpr htmp) hmaker
  | removed honly => exact .removed (honly.frame hown)
  | aborted hw hclean => exact .aborted hw (hclean.imp_right (·.frame hown))

end Invariant

/-! ### The state machine -/

section Machine

variable {δ : Type*}

/-- The states a method is called in. -/
def pathsOf (m : Fs.Method) : List Path :=
  table.filterMap (fun s => if s.enter = some m then some s.name else none)

theorem mem_pathsOf {path : Path} {m : Fs.Method} (h : table.methodAt path = some m) :
    path ∈ pathsOf m := by
  obtain ⟨s, hs, henter⟩ := Option.bind_eq_some_iff.mp h
  obtain ⟨hmem, hname⟩ := Table.mem_of_at? hs
  exact List.mem_filterMap.mpr ⟨s, hmem, by rw [if_pos henter, hname]⟩

theorem Agent.At.path_eq {a : Agent δ} {m : Fs.Method} {q : Path} (h : a.At m)
    (hq : pathsOf m = [q]) : a.path = q :=
  List.mem_singleton.mp (hq ▸ mem_pathsOf h.2)

/-- Where the events lead that the agents report before their machine's file system is made. -/
def edges : List (Path × Fs.Event × Path) := [
  ([.new], .onRun, [.base, .locking]),
  ([.base, .locking], .onDone, [.base, .checkingDir]),
  ([.base, .checkingDir], .onDone, [.base, .analyze]),
  ([.base, .checkingDir], .onError, [.base, .unpacking, .findingTmpDir]),
  ([.base, .unpacking, .findingTmpDir], .onDone, [.base, .unpacking, .makingTmpDir]),
  ([.base, .unpacking, .makingTmpDir], .onDone, [.base, .unpacking, .untaring]),
  ([.base, .unpacking, .untaring], .onDone, [.base, .unpacking, .placing]),
  ([.base, .unpacking, .placing], .onDone, [.base, .analyze]),
  ([.base, .analyze], .onDone, [.base, .unlocking]),
  ([.base, .unlocking], .onDone, [.workdir, .removingOld]),
  ([.base, .locking], .onError, [.aborting, .unlocking]),
  ([.base, .unpacking, .makingTmpDir], .onError, [.aborting, .unlocking]),
  ([.base, .unpacking, .untaring], .onError, [.aborting, .unlocking]),
  ([.base, .unpacking, .placing], .onError, [.aborting, .unlocking]),
  ([.base, .analyze], .onError, [.aborting, .unlocking]),
  ([.aborting, .unlocking], .onDone, [.aborting, .deletingTmpDir]),
  ([.aborting, .deletingTmpDir], .onDone, [.aborted]),
  ([.aborting, .deletingTmpDir], .onError, [.aborted])]

theorem edges_ok : ∀ x ∈ edges, x.1 ∈ table.leaves ∧ table.next 2 x.1 x.2.1 = x.2.2 ∧
    x.2.2 ≠ x.1 := by
  decide +kernel

theorem later_edges : ∀ path ∈ laterPaths, path ∈ table.leaves ∧
    table.next 2 path .onDone ∈ [.running] :: laterPaths ∧
    table.next 2 path .onDone ≠ path ∧
    table.next 2 path .onError = [.aborting, .unlocking] := by
  decide +kernel

variable {next : Path → Fs.Event → Path} (hnext : Follows table next)

include hnext

theorem fire_of_edge {a : Agent δ} {e : Fs.Event} {q : Path} (h : (a.path, e, q) ∈ edges) :
    a.fire next e = { a with path := q, wait := .enter } := by
  obtain ⟨hleaf, hq, hne⟩ := edges_ok _ h
  have hto : next a.path e = q := (hnext.next_eq fs_total _ e hleaf).trans hq
  rw [Agent.fire, if_neg (hto ▸ hne), hto]

theorem fire_later {a : Agent δ} (h : a.path ∈ laterPaths) :
    (∃ q ∈ [.running] :: laterPaths, a.fire next .onDone = { a with path := q, wait := .enter }) ∧
      a.fire next .onError = { a with path := [.aborting, .unlocking], wait := .enter } := by
  obtain ⟨hleaf, hdone, hne, herror⟩ := later_edges _ h
  have hto : ∀ e, next a.path e = table.next 2 a.path e :=
    fun e => hnext.next_eq fs_total _ e hleaf
  constructor
  · exact ⟨_, hdone, by rw [Agent.fire, hto, if_neg hne]⟩
  · have habort : a.path ≠ [.aborting, .unlocking] := by
      intro heq
      rw [heq] at h
      exact absurd h (by decide)
    rw [Agent.fire, hto, herror, if_neg habort.symm]

end Machine

/-! ### Acts that leave the directories alone -/

section Local

variable {ι δ : Type*} {next : Path → Fs.Event → Path} (hnext : Follows table next)
  {basefs : Option Content} {dirs : δ → Option (Dir ι)} {i : ι} {a : Agent δ}

theorem OnlyAt.mono {tmp : Option δ} (h : OnlyAt dirs i none) : OnlyAt dirs i tmp :=
  fun t d hd hmaker => nomatch h t d hd hmaker

theorem own_none : Own dirs i none :=
  fun _ ht => nomatch ht

theorem own_some {tmp : δ} {content : Content} (h : dirs tmp = some ⟨content, some i⟩) :
    Own dirs i (some tmp) := by
  intro _ ht d hd
  cases ht
  rw [h] at hd
  cases hd
  rfl

/-- The agent is about to lock the image, for the first time or again. -/
theorem AgentOk.of_locking (h : AgentOk basefs dirs i a)
    (hat : a.At .lockOsImage ∨ a.wait = .retry) :
    OnlyAt dirs i none ∧ a.path = [.base, .locking] ∧ a.basefsTmp = none ∧
      a.rmFailed = false ∧ (a.wait = .enter → a.untarLock = none) := by
  have hcase : a.path = [.base, .locking] ∨ a.wait = .retry :=
    hat.imp_left fun hat => hat.path_eq rfl
  cases h with
  | locking honly => exact ⟨honly, rfl, rfl, rfl, fun _ => rfl⟩
  | retrying honly => exact ⟨honly, rfl, rfl, rfl, fun he => nomatch he⟩
  | making hw | untaring hw | zfsPlacing hw | running hw | aborted hw =>
    rcases hcase with hpath | rfl
    · cases hpath
    · simp at hw
  | later hpath hw =>
    rcases hcase with rfl | rfl
    · exact absurd hpath (by decide)
    · simp at hw
  | _ => simp at hcase

/-- The states the methods that do other work are called in. -/
theorem AgentOk.later_of_work (h : AgentOk basefs dirs i a)
    (hat : (∃ m ∈ workMethods, a.At m) ∨ a.wait = .command) : a.path ∈ laterPaths := by
  rcases hat with ⟨m, hm, hat⟩ | hwait
  · have hall : ∀ m ∈ workMethods, ∀ path ∈ pathsOf m, path ∈ laterPaths := by decide
    exact hall m hm _ (mem_pathsOf hat.2)
  · cases h with
    | later hpath => exact hpath
    | making hw | untaring hw | zfsPlacing hw | running hw | aborted hw =>
      subst hwait
      simp at hw
    | _ => cases hwait

theorem AgentOk.startCommand (h : AgentOk basefs dirs i a)
    (hat : ∃ m ∈ workMethods, a.At m) : AgentOk basefs dirs i { a with wait := .command } := by
  have hpath := h.later_of_work (Or.inl hat)
  cases h with
  | later _ _ honly => exact .later hpath (List.mem_cons_of_mem _ List.mem_cons_self) honly
  | _ => simp [laterPaths] at hpath

theorem AgentOk.tell (h : AgentOk basefs dirs i a)
    (hat : a.At .tellRunning ∨ a.At .tellError) :
    AgentOk basefs dirs i { a with wait := .nothing } := by
  have hpath : a.path ∈ finalPaths := by
    rcases hat with hat | hat
    · rw [hat.path_eq (q := [.running]) rfl]
      exact List.mem_cons_self
    · rw [hat.path_eq (q := [.aborted]) rfl]
      exact List.mem_cons_of_mem _ List.mem_cons_self
  cases h with
  | running _ honly => exact .running (List.mem_cons_of_mem _ List.mem_cons_self) honly
  | aborted _ hclean => exact .aborted (List.mem_cons_of_mem _ List.mem_cons_self) hclean
  | later hmem =>
    have hall : ∀ path ∈ laterPaths, path ∉ finalPaths := by decide
    exact absurd hpath (hall _ hmem)
  | _ => simp [finalPaths] at hpath

theorem AgentOk.of_making (h : AgentOk basefs dirs i a)
    (hat : a.At .makeTmpDirForOsImage ∨ a.wait = .mkdir) :
    ∃ tmp, a = ⟨[.base, .unpacking, .makingTmpDir], a.wait, some true, some tmp, false⟩ ∧
      OnlyAt dirs i none ∧ basefs = none ∧ dirs tmp = none := by
  have hcase := hat.imp_left fun hat =>
    hat.path_eq (q := [.base, .unpacking, .makingTmpDir]) rfl
  cases h with
  | making _ honly hbase htmp => exact ⟨_, rfl, honly, hbase, htmp⟩
  | untaring hw | zfsPlacing hw | running hw | aborted hw =>
    rcases hcase with hpath | rfl
    · cases hpath
    · simp at hw
  | later hpath hw =>
    rcases hcase with rfl | rfl
    · exact absurd hpath (by decide)
    · simp at hw
  | _ => simp at hcase

theorem AgentOk.of_untaring (h : AgentOk basefs dirs i a)
    (hat : a.At .untarOsImage ∨ a.wait = .tar) :
    ∃ tmp, a = ⟨[.base, .unpacking, .untaring], a.wait, some true, some tmp, false⟩ ∧
      OnlyAt dirs i (some tmp) ∧ basefs = none ∧ dirs tmp = some ⟨.partly, some i⟩ := by
  have hcase := hat.imp_left fun hat => hat.path_eq (q := [.base, .unpacking, .untaring]) rfl
  cases h with
  | untaring _ honly hbase htmp => exact ⟨_, rfl, honly, hbase, htmp⟩
  | making hw | zfsPlacing hw | running hw | aborted hw =>
    rcases hcase with hpath | rfl
    · cases hpath
    · simp at hw
  | later hpath hw =>
    rcases hcase with rfl | rfl
    · exact absurd hpath (by decide)
    · simp at hw
  | _ => simp at hcase

theorem AgentOk.of_placing (h : AgentOk basefs dirs i a) (hat : a.At .placeOsImage) :
    ∃ tmp, a = ⟨[.base, .unpacking, .placing], .enter, some true, some tmp, false⟩ ∧
      OnlyAt dirs i (some tmp) ∧ basefs = none ∧ dirs tmp = some ⟨.whole, some i⟩ := by
  have hpath := hat.path_eq (q := [.base, .unpacking, .placing]) rfl
  have hwait := hat.1
  cases h with
  | placing honly hbase htmp => exact ⟨_, rfl, honly, hbase, htmp⟩
  | zfsPlacing hw =>
    subst hwait
    simp at hw
  | zfsPlaced => cases hwait
  | later hmem =>
    subst hpath
    exact absurd hmem (by decide)
  | _ => cases hpath

theorem AgentOk.of_zfsPlacing (h : AgentOk basefs dirs i a) {tmp : δ}
    (hwait : a.wait ∈ [.zfsSnapshot tmp, .zfsRename tmp false]) :
    a = ⟨[.base, .unpacking, .placing], a.wait, some true, none, false⟩ ∧
      OnlyAt dirs i (some tmp) ∧ basefs = none ∧ dirs tmp = some ⟨.whole, some i⟩ := by
  cases h with
  | zfsPlacing hw honly hbase htmp =>
    rcases List.mem_pair.mp hw with rfl | rfl
    · obtain rfl : _ = tmp := by simpa using hwait
      exact ⟨rfl, honly, hbase, htmp⟩
    · obtain rfl : _ = tmp := by simpa using hwait
      exact ⟨rfl, honly, hbase, htmp⟩
  | making hw | untaring hw | later _ hw | running hw | aborted hw =>
    rcases List.mem_pair.mp hw with rfl | rfl
    · simp at hwait
    · simp at hwait
  | _ => simp at hwait

theorem AgentOk.of_zfsPlaced (h : AgentOk basefs dirs i a) {tmp : δ}
    (hwait : a.wait = .zfsRename tmp true) :
    a = ⟨[.base, .unpacking, .placing], a.wait, some true, none, false⟩ ∧
      OnlyAt dirs i none := by
  cases h with
  | zfsPlaced honly => exact ⟨rfl, honly⟩
  | making hw | untaring hw | zfsPlacing hw | later _ hw | running hw | aborted hw =>
    subst hwait
    simp at hw
  | _ => cases hwait

theorem AgentOk.of_deleting (h : AgentOk basefs dirs i a) (hat : a.At .deleteTmp) :
    a = ⟨[.aborting, .deletingTmpDir], .enter, none, a.basefsTmp, false⟩ ∧
      OnlyAt dirs i a.basefsTmp ∧ Own dirs i a.basefsTmp := by
  have hpath := hat.path_eq (q := [.aborting, .deletingTmpDir]) rfl
  have hwait := hat.1
  cases h with
  | abortDeleting honly hown => exact ⟨rfl, honly, hown⟩
  | removing | removed => cases hwait
  | later hmem =>
    subst hpath
    exact absurd hmem (by decide)
  | _ => cases hpath

theorem AgentOk.of_removing (h : AgentOk basefs dirs i a) {tmp : δ}
    (hwait : a.wait = .rm tmp false) :
    a = ⟨[.aborting, .deletingTmpDir], .rm tmp false, none, some tmp, false⟩ ∧
      OnlyAt dirs i (some tmp) ∧ ∃ d, dirs tmp = some d ∧ d.maker = some i := by
  cases h with
  | removing honly htmp hmaker =>
    cases hwait
    exact ⟨rfl, honly, _, htmp, hmaker⟩
  | making hw | untaring hw | zfsPlacing hw | later _ hw | running hw | aborted hw =>
    subst hwait
    simp at hw
  | _ => cases hwait

theorem AgentOk.of_removed (h : AgentOk basefs dirs i a) {tmp : δ}
    (hwait : a.wait = .rm tmp true) :
    a = ⟨[.aborting, .deletingTmpDir], a.wait, none, a.basefsTmp, false⟩ ∧
      OnlyAt dirs i none := by
  cases h with
  | removed honly => exact ⟨rfl, honly⟩
  | making hw | untaring hw | zfsPlacing hw | later _ hw | running hw | aborted hw =>
    subst hwait
    simp at hw
  | _ => cases hwait

theorem AgentOk.startTar (h : AgentOk basefs dirs i a) (hat : a.At .untarOsImage) :
    AgentOk basefs dirs i { a with wait := .tar } := by
  obtain ⟨tmp, ha, honly, hbase, htmp⟩ := h.of_untaring (.inl hat)
  rw [ha]
  exact .untaring (List.mem_cons_of_mem _ List.mem_cons_self) honly hbase htmp

theorem AgentOk.startMkdir (h : AgentOk basefs dirs i a) (hat : a.At .makeTmpDirForOsImage) :
    AgentOk basefs dirs i { a with wait := .mkdir } := by
  obtain ⟨tmp, ha, honly, hbase, htmp⟩ := h.of_making (.inl hat)
  rw [ha]
  exact .making (List.mem_cons_of_mem _ List.mem_cons_self) honly hbase htmp

include hnext

theorem AgentOk.of_edge {e : Fs.Event} {p q : Path} (hp : a.path = p) (h : (p, e, q) ∈ edges)
    (hok : AgentOk basefs dirs i { a with path := q, wait := .enter }) :
    AgentOk basefs dirs i (a.fire next e) := by
  subst hp
  rw [fire_of_edge hnext h]
  exact hok

theorem AgentOk.run (h : AgentOk basefs dirs i a) (hwait : a.wait = .run) :
    AgentOk basefs dirs i (a.fire next .onRun) := by
  cases h with
  | new honly => exact .of_edge hnext (p := [.new]) rfl (by decide) (.locking honly)
  | making hw | untaring hw | zfsPlacing hw | later _ hw | running hw | aborted hw =>
    subst hwait
    simp at hw
  | _ => cases hwait

theorem AgentOk.checkBaseDir (h : AgentOk basefs dirs i a) (hat : a.At .checkBaseDir) :
    AgentOk basefs dirs i (a.fire next (outcome basefs.isSome)) := by
  have hpath := hat.path_eq (q := [.base, .checkingDir]) rfl
  cases h with
  | checking honly =>
    cases hbase : basefs with
    | none =>
      exact .of_edge hnext (p := [.base, .checkingDir]) rfl (by decide) (.finding honly rfl)
    | some c =>
      show AgentOk _ dirs i (Agent.fire next _ .onDone)
      exact .of_edge hnext (p := [.base, .checkingDir]) rfl (by decide) (.analyzing honly)
  | later hmem =>
    subst hpath
    exact absurd hmem (by decide)
  | _ => cases hpath

theorem AgentOk.findTmpDir (h : AgentOk basefs dirs i a) (hat : a.At .findTmpDirForOsImage)
    {tmp : δ} (htmp : dirs tmp = none) :
    AgentOk basefs dirs i ({ a with basefsTmp := some tmp }.fire next .onDone) := by
  have hpath := hat.path_eq (q := [.base, .unpacking, .findingTmpDir]) rfl
  cases h with
  | finding honly hbase =>
    exact .of_edge hnext (p := [.base, .unpacking, .findingTmpDir]) rfl (by decide)
      (.making List.mem_cons_self honly hbase htmp)
  | later hmem =>
    subst hpath
    exact absurd hmem (by decide)
  | _ => cases hpath

theorem AgentOk.analyzeOsImage (h : AgentOk basefs dirs i a) (hat : a.At .analyzeOsImage)
    (worked : Bool) : AgentOk basefs dirs i (a.fire next (outcome worked)) := by
  have hpath := hat.path_eq (q := [.base, .analyze]) rfl
  cases h with
  | analyzing honly =>
    cases worked with
    | true => exact .of_edge hnext (p := [.base, .analyze]) rfl (by decide) (.unlocking honly)
    | false =>
      exact .of_edge hnext (p := [.base, .analyze]) rfl (by decide)
        (.abortUnlocking honly own_none)
  | later hmem =>
    subst hpath
    exact absurd hmem (by decide)
  | _ => cases hpath

theorem AgentOk.unlockOsImage (h : AgentOk basefs dirs i a) (hat : a.At .unlockOsImage) :
    AgentOk basefs dirs i ({ a with untarLock := none }.fire next .onDone) := by
  have hpath : a.path ∈ [[.base, .unlocking], [.aborting, .unlocking]] := mem_pathsOf hat.2
  cases h with
  | unlocking honly =>
    exact .of_edge hnext (p := [.base, .unlocking]) rfl (by decide)
      (.later List.mem_cons_self List.mem_cons_self honly)
  | abortUnlocking honly hown =>
    exact .of_edge hnext (p := [.aborting, .unlocking]) rfl (by decide)
      (.abortDeleting honly hown)
  | later hmem =>
    rcases List.mem_pair.mp hpath with rfl | rfl
    · exact absurd hmem (by decide)
    · exact absurd hmem (by decide)
  | _ => simp at hpath

/-- What follows on the lock's release ends in any way. -/
theorem AgentOk.fire_later (h : AgentOk basefs dirs i a) (hpath : a.path ∈ laterPaths)
    (worked : Bool) : AgentOk basefs dirs i (a.fire next (outcome worked)) := by
  obtain ⟨⟨q, hq, hdone⟩, herror⟩ := BaseImages.fire_later hnext hpath
  cases h with
  | later _ _ honly =>
    cases worked with
    | false =>
      rw [show outcome false = .onError from rfl, herror]
      exact .abortUnlocking honly own_none
    | true =>
      rw [show outcome true = .onDone from rfl, hdone]
      rcases List.mem_cons.mp hq with rfl | hq
      · exact .running List.mem_cons_self honly
      · exact .later hq List.mem_cons_self honly
  | _ => simp [laterPaths] at hpath

theorem AgentOk.untarMissing (h : AgentOk basefs dirs i a) (hat : a.At .untarOsImage) :
    AgentOk basefs dirs i (a.fire next .onError) := by
  obtain ⟨tmp, ha, honly, -, htmp⟩ := h.of_untaring (.inl hat)
  rw [ha]
  exact .of_edge hnext (p := [.base, .unpacking, .untaring]) rfl (by decide)
    (.abortUnlocking honly (own_some htmp))

theorem AgentOk.lockOsImage (h : AgentOk basefs dirs i a)
    (hat : a.At .lockOsImage ∨ a.wait = .retry) :
    (∀ lock, AgentOk basefs dirs i ({ a with untarLock := lock }.fire next .onError)) ∧
      AgentOk basefs dirs i ({ a with untarLock := some true }.fire next .onDone) ∧
      AgentOk basefs dirs i { a with untarLock := some false, wait := .retry } := by
  obtain ⟨honly, hpath, htmp, hfailed, -⟩ := h.of_locking hat
  obtain ⟨path, wait, lock, tmp, failed⟩ := a
  obtain rfl : path = _ := hpath
  obtain rfl : tmp = _ := htmp
  obtain rfl : failed = _ := hfailed
  refine ⟨fun lock => ?_, ?_, .retrying honly⟩
  · exact .of_edge hnext (p := [.base, .locking]) rfl (by decide)
      (.abortUnlocking honly own_none)
  · exact .of_edge hnext (p := [.base, .locking]) rfl (by decide) (.checking honly)

/-- The zfs driver on its way, as long as it does not forget a directory. -/
theorem AgentOk.zfsPlace (h : AgentOk basefs dirs i a) (hat : a.At .placeOsImage) :
    basefs = none ∧ AgentOk basefs dirs i (a.fire next .onError) ∧
      ∀ tmp ∈ a.basefsTmp,
        AgentOk basefs dirs i { a with basefsTmp := none, wait := .zfsSnapshot tmp } := by
  obtain ⟨tmp, ha, honly, hbase, htmp⟩ := h.of_placing hat
  rw [ha]
  refine ⟨hbase, ?_, fun _ ht => ?_⟩
  · exact .of_edge hnext (p := [.base, .unpacking, .placing]) rfl (by decide)
      (.abortUnlocking honly (own_some htmp))
  · cases ht
    exact .zfsPlacing List.mem_cons_self honly hbase htmp

theorem AgentOk.zfsRenameEnds (h : AgentOk basefs dirs i a) {tmp : δ}
    (hwait : a.wait = .zfsRename tmp true) (worked : Bool) :
    AgentOk basefs dirs i (a.fire next (outcome worked)) := by
  obtain ⟨ha, honly⟩ := h.of_zfsPlaced hwait
  rw [ha]
  cases worked with
  | true =>
    exact .of_edge hnext (p := [.base, .unpacking, .placing]) rfl (by decide)
      (.analyzing honly)
  | false =>
    exact .of_edge hnext (p := [.base, .unpacking, .placing]) rfl (by decide)
      (.abortUnlocking honly own_none)

/-- There is nothing to remove, or it cannot be named. -/
theorem AgentOk.deleteTmp (h : AgentOk basefs dirs i a) (hat : a.At .deleteTmp) :
    ((∀ tmp ∈ a.basefsTmp, dirs tmp = none) →
      AgentOk basefs dirs i (a.fire next .onDone)) ∧
    AgentOk basefs dirs i ({ a with rmFailed := true }.fire next .onError) := by
  obtain ⟨ha, honly, -⟩ := h.of_deleting hat
  rw [ha]
  constructor
  · intro hnone
    refine .of_edge hnext (p := [.aborting, .deletingTmpDir]) rfl (by decide)
      (.aborted List.mem_cons_self (.inr fun t d hd hmaker => ?_))
    rw [hnone t (honly t d hd hmaker)] at hd
    cases hd
  · exact .of_edge hnext (p := [.aborting, .deletingTmpDir]) rfl (by decide)
      (.aborted List.mem_cons_self (.inl rfl))

theorem AgentOk.rmEnds (h : AgentOk basefs dirs i a) {tmp : δ} {removed worked : Bool}
    (hwait : a.wait = .rm tmp removed) (hworked : worked = true → removed = true) :
    AgentOk basefs dirs i
      ({ a with rmFailed := a.rmFailed || !worked }.fire next (outcome worked)) := by
  have hpath : a.path = [.aborting, .deletingTmpDir] := by
    cases removed with
    | true => rw [(h.of_removed hwait).1]
    | false => rw [(h.of_removing hwait).1]
  have hlock : a.untarLock = none := by
    cases removed with
    | true => rw [(h.of_removed hwait).1]
    | false => rw [(h.of_removing hwait).1]
  obtain ⟨path, wait, lock, basefsTmp, failed⟩ := a
  obtain rfl : path = _ := hpath
  obtain rfl : lock = _ := hlock
  cases worked with
  | true =>
    obtain rfl := hworked rfl
    exact .of_edge hnext (p := [.aborting, .deletingTmpDir]) rfl (by decide)
      (.aborted List.mem_cons_self (.inr (h.of_removed hwait).2))
  | false =>
    exact .of_edge hnext (p := [.aborting, .deletingTmpDir]) rfl (by decide)
      (.aborted List.mem_cons_self (.inl (Bool.or_true _)))

end Local

/-! ### What every act keeps -/

section Kept

variable {ι δ : Type*} {w w' : World ι δ} {i : ι}

theorem fire_untarLock (next : Path → Fs.Event → Path) (a : Agent δ) (e : Fs.Event) :
    (a.fire next e).untarLock = a.untarLock := by
  unfold Agent.fire
  split <;> rfl

/-- An act suits the agent that takes it and the others. -/
structure Kept (w w' : World ι δ) (i : ι) : Prop where
  others : ∀ j, j ≠ i → w'.agents j = w.agents j
  ok : AgentOk w'.basefs w'.dirs i (w'.agents i)
  undisturbed : ∀ j, j ≠ i → Undisturbed w w' j
  lock : (w'.agents i).untarLock = some true → (w.agents i).untarLock = some true ∨
    ∀ j, j ≠ i → (w.agents j).untarLock ≠ some true

theorem Inv.alone (h : Inv w) (hlock : (w.agents i).untarLock = some true) (j : ι)
    (hj : j ≠ i) : (w.agents j).untarLock ≠ some true :=
  fun hlock' => hj (h.exclusive j i hlock' hlock)

variable [DecidableEq ι]

theorem Inv.of_kept (h : Inv w) (hwait : ∀ j, j ≠ i → (w.agents j).wait ≠ .enter)
    (hkept : Kept w w' i) : Inv w' := by
  have hothers : ∀ j, j ≠ i → (w'.agents i).untarLock = some true →
      (w'.agents j).untarLock ≠ some true := by
    intro j hj hlock hlock'
    rw [hkept.others j hj] at hlock'
    rcases hkept.lock hlock with hold | hfree
    · exact hj (h.exclusive j i hlock' hold)
    · exact hfree j hj hlock'
  refine ⟨fun j => ?_, fun j k hj hk => ?_⟩
  · by_cases hj : j = i
    · subst hj
      exact hkept.ok
    · rw [hkept.others j hj]
      exact (h.agents j).frame (hwait j hj) (hkept.undisturbed j hj)
  · by_cases hji : j = i
    · subst hji
      by_contra hne
      exact hothers k (Ne.symm hne) hj hk
    · by_cases hki : k = i
      · subst hki
        exact absurd hj (hothers j hji hk)
      · rw [hkept.others j hji] at hj
        rw [hkept.others k hki] at hk
        exact h.exclusive j k hj hk

theorem put_agents_self (w : World ι δ) (i : ι) (a : Agent δ) : (w.put i a).agents i = a :=
  Function.update_self _ _ _

theorem put_agents_of_ne (w : World ι δ) {i j : ι} (a : Agent δ) (hj : j ≠ i) :
    (w.put i a).agents j = w.agents j :=
  Function.update_of_ne hj _ _

theorem Kept.put {a : Agent δ} (hok : AgentOk w.basefs w.dirs i a)
    (hlock : a.untarLock = some true → (w.agents i).untarLock = some true ∨
      ∀ j, j ≠ i → (w.agents j).untarLock ≠ some true) : Kept w (w.put i a) i where
  others _ hj := put_agents_of_ne w a hj
  ok := (put_agents_self w i a).symm ▸ hok
  undisturbed _ _ := ⟨fun _ _ _ => Iff.rfl, fun _ => rfl, fun _ _ ht => ht⟩
  lock h := hlock (put_agents_self w i a ▸ h)

/-- The agent's lock file stays as it is. -/
theorem Kept.put_same {a : Agent δ} (hok : AgentOk w.basefs w.dirs i a)
    (hlock : a.untarLock = (w.agents i).untarLock) : Kept w (w.put i a) i :=
  .put hok fun h => .inl (hlock ▸ h)

/-- A directory changes that is the agent's own, or one while the others have no lock. -/
theorem Kept.of_dirs {v : World ι δ} {a : Agent δ} (tmp : δ) (hagents : v.agents = w.agents)
    (hdirs : ∀ t, t ≠ tmp → v.dirs t = w.dirs t)
    (hold : ∀ d, w.dirs tmp = some d → d.maker = some i)
    (hnew : ∀ d, v.dirs tmp = some d → d.maker = some i)
    (hshared : v.basefs = w.basefs ∧ w.dirs tmp ≠ none ∨
      ∀ j, j ≠ i → (w.agents j).untarLock ≠ some true)
    (hok : AgentOk v.basefs v.dirs i a) (hlock : a.untarLock = (w.agents i).untarLock) :
    Kept w (v.put i a) i where
  others j hj := by rw [put_agents_of_ne v a hj, hagents]
  ok := (put_agents_self v i a).symm ▸ hok
  lock h := by
    rw [put_agents_self, hlock] at h
    exact .inl h
  undisturbed j hj := by
    refine ⟨fun t d hmaker => ?_, fun hlock' => ?_, fun hlock' t ht => ?_⟩
    · show v.dirs t = some d ↔ _
      by_cases htmp : t = tmp
      · subst htmp
        have hne : d.maker ≠ some i := by
          rw [hmaker]
          exact fun he => hj (Option.some.inj he)
        exact iff_of_false (fun hd => hne (hnew d hd)) (fun hd => hne (hold d hd))
      · rw [hdirs t htmp]
    · exact (hshared.resolve_right fun halone => halone j hj hlock').1
    · show v.dirs t = none
      by_cases htmp : t = tmp
      · subst htmp
        exact absurd ht (hshared.resolve_right fun halone => halone j hj hlock').2
      · rw [hdirs t htmp, ht]

end Kept

/-! ### Acts on the directories -/

section Dirs

variable {ι δ : Type*} [DecidableEq δ] {next : Path → Fs.Event → Path} {w : World ι δ} {i : ι}

theorem OnlyAt.update {dirs : δ → Option (Dir ι)} {tmp : δ} {x : Option (Dir ι)}
    (h : OnlyAt dirs i (some tmp)) : OnlyAt (Function.update dirs tmp x) i (some tmp) := by
  intro t d hd hmaker
  by_cases ht : t = tmp
  · rw [ht]
  · rw [Function.update_of_ne ht] at hd
    exact h t d hd hmaker

theorem OnlyAt.removed {dirs : δ → Option (Dir ι)} {tmp : δ} (h : OnlyAt dirs i (some tmp)) :
    OnlyAt (Function.update dirs tmp none) i none := by
  intro t d hd hmaker
  by_cases ht : t = tmp
  · rw [ht, Function.update_self] at hd
    cases hd
  · rw [Function.update_of_ne ht] at hd
    exact absurd (Option.some.inj (h t d hd hmaker)) (Ne.symm ht)

theorem removeDir_self (w : World ι δ) (tmp : δ) : (w.removeDir tmp).dirs tmp = none :=
  Function.update_self _ _ _

theorem setContent_self {tmp : δ} {d : Dir ι} (h : w.dirs tmp = some d) (content : Content) :
    (w.setContent tmp content).dirs tmp = some { d with content := content } := by
  refine (Function.update_self _ _ _).trans ?_
  rw [h]
  rfl

theorem makeDir_of_none {tmp : δ} (h : w.dirs tmp = none) {result : Mkdir}
    (hmade : result ≠ .failed) : w.makeDir i tmp result =
      { w with dirs := Function.update w.dirs tmp (some ⟨.partly, some i⟩) } := by
  cases result with
  | failed => exact absurd rfl hmade
  | made | left => rw [World.makeDir, h, Option.getD_none]

variable [DecidableEq ι]

theorem Inv.rmRemoves (h : Inv w) {tmp : δ} (hwait : (w.agents i).wait = .rm tmp false) :
    Kept w ((w.removeDir tmp).put i { w.agents i with wait := .rm tmp true }) i := by
  obtain ⟨ha, honly, d, hd, hmaker⟩ := (h.agents i).of_removing hwait
  refine .of_dirs tmp rfl (fun t ht => Function.update_of_ne ht _ _) ?_ ?_
    (.inl ⟨rfl, ?_⟩) ?_ rfl
  · intro d' hd'
    rw [hd] at hd'
    cases hd'
    exact hmaker
  · intro d' hd'
    rw [removeDir_self] at hd'
    cases hd'
  · rw [hd]
    exact nofun
  · rw [ha]
    exact .removed honly.removed

theorem Inv.startRm (h : Inv w) (hat : (w.agents i).At .deleteTmp) {tmp : δ}
    (htmp : (w.agents i).basefsTmp = some tmp) (hthere : w.dirs tmp ≠ none) :
    Kept w ((w.setContent tmp .partly).put i { w.agents i with wait := .rm tmp false }) i := by
  obtain ⟨ha, honly, hown⟩ := (h.agents i).of_deleting hat
  rw [htmp] at ha honly hown
  obtain ⟨d, hd⟩ := Option.ne_none_iff_exists'.mp hthere
  have hmaker := hown tmp rfl d hd
  have hnew := setContent_self hd .partly
  refine .of_dirs tmp rfl (fun t ht => Function.update_of_ne ht _ _) (hown tmp rfl)
    ?_ (.inl ⟨rfl, hthere⟩) ?_ rfl
  · intro d' hd'
    rw [hnew] at hd'
    cases hd'
    exact hmaker
  · rw [ha]
    exact .removing honly.update hnew hmaker

/-- The directory takes the place of the base image under the lock. -/
theorem Inv.renameDir (h : Inv w) {tmp : δ} {a : Agent δ}
    (hlocked : (w.agents i).untarLock = some true)
    (hd : w.dirs tmp = some ⟨.whole, some i⟩)
    (hok : AgentOk (some .whole) (w.removeDir tmp).dirs i a)
    (hlock : a.untarLock = (w.agents i).untarLock) :
    Kept w ((w.renameDir tmp).put i a) i := by
  have hbase : (w.renameDir tmp).basefs = some .whole := by
    show (w.dirs tmp).map Dir.content = _
    rw [hd]
    rfl
  refine .of_dirs tmp rfl (fun t ht => Function.update_of_ne ht _ _)
    (own_some hd tmp rfl) ?_ (.inr (h.alone hlocked)) (hbase ▸ hok) hlock
  intro d' hd'
  rw [show (w.renameDir tmp).dirs tmp = none from removeDir_self w tmp] at hd'
  cases hd'

theorem Inv.zfsRenames (h : Inv w) {tmp : δ}
    (hwait : (w.agents i).wait = .zfsRename tmp false) :
    Kept w ((w.renameDir tmp).put i { w.agents i with wait := .zfsRename tmp true }) i := by
  have hmem : (w.agents i).wait ∈ [.zfsSnapshot tmp, .zfsRename tmp false] :=
    hwait ▸ List.mem_cons_of_mem _ List.mem_cons_self
  obtain ⟨ha, honly, -, hd⟩ := (h.agents i).of_zfsPlacing hmem
  refine h.renameDir (by rw [ha]) hd ?_ rfl
  rw [ha]
  exact .zfsPlaced honly.removed

variable (hnext : Follows table next)

include hnext

theorem Inv.makeDir (h : Inv w)
    (hat : (w.agents i).At .makeTmpDirForOsImage ∨ (w.agents i).wait = .mkdir) {tmp : δ}
    (htmp : (w.agents i).basefsTmp = some tmp) (result : Mkdir) :
    Kept w ((w.makeDir i tmp result).put i
      ((w.agents i).fire next (outcome (result = .made)))) i := by
  obtain ⟨t, ha, honly, hbase, hfree⟩ := (h.agents i).of_making hat
  obtain rfl : t = tmp := by
    rw [ha] at htmp
    exact Option.some.inj htmp
  by_cases hmade : result = .failed
  · subst hmade
    refine .put_same ?_ (fire_untarLock _ _ _)
    rw [ha]
    refine .of_edge hnext (p := [.base, .unpacking, .makingTmpDir]) rfl (by decide)
      (.abortUnlocking honly.mono fun _ ht d hd => ?_)
    cases ht
    rw [hfree] at hd
    cases hd
  · have halone := h.alone (show (w.agents i).untarLock = some true by rw [ha])
    have hnew : Function.update w.dirs t (some ⟨.partly, some i⟩) t = some ⟨.partly, some i⟩ :=
      Function.update_self _ _ _
    rw [makeDir_of_none hfree hmade]
    refine .of_dirs t rfl (fun _ ht => Function.update_of_ne ht _ _) ?_
      (own_some hnew t rfl) (.inr halone) ?_ (fire_untarLock _ _ _)
    · intro d hd
      rw [hfree] at hd
      cases hd
    · rw [ha]
      cases result with
      | failed => exact absurd rfl hmade
      | made =>
        exact .of_edge hnext (p := [.base, .unpacking, .makingTmpDir]) rfl (by decide)
          (.untaring List.mem_cons_self honly.mono.update hbase hnew)
      | left =>
        exact .of_edge hnext (p := [.base, .unpacking, .makingTmpDir]) rfl (by decide)
          (.abortUnlocking honly.mono.update (own_some hnew))

theorem Inv.tarEnds (h : Inv w) (hwait : (w.agents i).wait = .tar) {tmp : δ}
    (htmp : (w.agents i).basefsTmp = some tmp) (worked : Bool) :
    Kept w ((w.setContent tmp (if worked then .whole else .partly)).put i
      ((w.agents i).fire next (outcome worked))) i := by
  obtain ⟨t, ha, honly, hbase, hd⟩ := (h.agents i).of_untaring (.inr hwait)
  obtain rfl : t = tmp := by
    rw [ha] at htmp
    exact Option.some.inj htmp
  have hnew := setContent_self hd (if worked then .whole else .partly)
  refine .of_dirs t rfl (fun _ ht => Function.update_of_ne ht _ _)
    (own_some hd t rfl) (own_some hnew t rfl) (.inl ⟨rfl, ?_⟩) ?_ (fire_untarLock _ _ _)
  · rw [hd]
    exact nofun
  · rw [ha]
    cases worked with
    | true =>
      exact .of_edge hnext (p := [.base, .unpacking, .untaring]) rfl (by decide)
        (.placing honly.update hbase hnew)
    | false =>
      exact .of_edge hnext (p := [.base, .unpacking, .untaring]) rfl (by decide)
        (.abortUnlocking honly.update (own_some hnew))

theorem Inv.placeOsImage (h : Inv w) (hat : (w.agents i).At .placeOsImage) {tmp : δ}
    (htmp : (w.agents i).basefsTmp = some tmp) :
    Kept w ((w.renameDir tmp).put i
        ({ w.agents i with basefsTmp := none }.fire next .onDone)) i := by
  obtain ⟨t, ha, honly, -, hd⟩ := (h.agents i).of_placing hat
  obtain rfl : t = tmp := by
    rw [ha] at htmp
    exact Option.some.inj htmp
  refine h.renameDir (by rw [ha]) hd ?_ (fire_untarLock _ _ _)
  rw [ha]
  exact .of_edge hnext (p := [.base, .unpacking, .placing]) rfl (by decide)
    (.analyzing honly.removed)

end Dirs

/-! ### Every step and every run -/

section Runs

variable {ι δ : Type*} [DecidableEq ι] [DecidableEq δ] {next : Path → Fs.Event → Path}
  (hnext : Follows table next) {driver : Driver} {w w' : World ι δ} {i : ι} {act : Act δ}

include hnext

theorem Inv.effect (h : Inv w) (hen : Enabled driver w i act) (hkeeps : ¬LosesTmp act) :
    Kept w (BaseImages.effect next w i act) i := by
  have hi := h.agents i
  cases act with
  | run => exact .put_same (hi.run hnext hen) (fire_untarLock _ _ _)
  | lockOsImage result =>
    obtain ⟨herror, hdone, hretry⟩ := hi.lockOsImage hnext (hen.1.imp_right And.left)
    cases result with
    | unopened =>
      exact .put_same (herror (w.agents i).untarLock) (fire_untarLock _ _ _)
    | taken => exact .put hdone fun _ => .inr (hen.2 rfl)
    | busy => exact .put hretry fun hlock => nomatch hlock
    | failed =>
      refine .put (herror none) fun hlock => ?_
      rw [fire_untarLock] at hlock
      cases hlock
  | checkBaseDir => exact .put_same (hi.checkBaseDir hnext hen) (fire_untarLock _ _ _)
  | findTmpDir tmp => exact .put_same (hi.findTmpDir hnext hen.1 hen.2) (fire_untarLock _ _ _)
  | makeTmpDir tmp result => exact h.makeDir hnext (.inl hen.1) hen.2.1 result
  | startMkdir => exact .put_same (hi.startMkdir hen.1) rfl
  | mkdirEnds tmp result => exact h.makeDir hnext (.inr hen.1) hen.2 result
  | untarMissing => exact .put_same (hi.untarMissing hnext hen) (fire_untarLock _ _ _)
  | startTar => exact .put_same (hi.startTar hen) rfl
  | tarEnds tmp worked => exact h.tarEnds hnext hen.1 hen.2 worked
  | placeOsImage tmp renamed =>
    obtain ⟨hbase, herror, -⟩ := hi.zfsPlace hnext hen.1
    simp only [BaseImages.effect]
    rw [if_neg (by simp [hbase])]
    cases renamed with
    | true => exact h.placeOsImage hnext hen.1 hen.2.2.1
    | false => exact .put_same herror (fire_untarLock _ _ _)
  | zfsPlace tmp result =>
    obtain ⟨hbase, herror, hstarted⟩ := hi.zfsPlace hnext hen.1
    simp only [BaseImages.effect]
    rw [if_neg (by simp [hbase])]
    cases result with
    | basefsUnresolved => exact .put_same herror (fire_untarLock _ _ _)
    | tmpUnresolved => exact absurd trivial hkeeps
    | started => exact .put_same (hstarted tmp hen.2.2) rfl
  | zfsSnapshotEnds tmp worked =>
    cases worked with
    | false => exact absurd rfl hkeeps
    | true =>
      have hwait : (w.agents i).wait = .zfsSnapshot tmp := hen
      have hmem : (w.agents i).wait ∈ [.zfsSnapshot tmp, .zfsRename tmp false] :=
        hwait.symm ▸ List.mem_cons_self
      obtain ⟨ha, honly, hbase, hd⟩ := hi.of_zfsPlacing hmem
      refine .put_same ?_ rfl
      rw [ha]
      exact .zfsPlacing (List.mem_cons_of_mem _ List.mem_cons_self) honly hbase hd
  | zfsRenames tmp => exact h.zfsRenames hen.1
  | zfsRenameEnds tmp renamed worked =>
    cases renamed with
    | true => exact .put_same (hi.zfsRenameEnds hnext hen.1 worked) (fire_untarLock _ _ _)
    | false =>
      have hworked : worked = false := by
        cases worked with
        | false => rfl
        | true => exact absurd (hen.2 rfl) (by decide)
      exact absurd ⟨rfl, hworked⟩ hkeeps
  | analyzeOsImage worked =>
    exact .put_same (hi.analyzeOsImage hnext hen worked) (fire_untarLock _ _ _)
  | unlockOsImage =>
    refine .put (hi.unlockOsImage hnext hen) fun hlock => ?_
    rw [fire_untarLock] at hlock
    cases hlock
  | work worked =>
    exact .put_same (hi.fire_later hnext (hi.later_of_work (.inl hen)) worked)
      (fire_untarLock _ _ _)
  | startCommand => exact .put_same (hi.startCommand hen) rfl
  | commandEnds worked =>
    exact .put_same (hi.fire_later hnext (hi.later_of_work (.inr hen)) worked)
      (fire_untarLock _ _ _)
  | tell => exact .put_same (hi.tell hen) rfl
  | deleteTmp resolved =>
    obtain ⟨hdone, herror⟩ := hi.deleteTmp hnext hen.1
    simp only [BaseImages.effect]
    split
    · next hnone =>
      exact .put_same (hdone fun _ ht => nomatch hnone ▸ ht) (fire_untarLock _ _ _)
    · next tmp htmp =>
      split_ifs with hgone hresolved
      · refine .put_same (hdone fun t ht => ?_) (fire_untarLock _ _ _)
        rw [htmp] at ht
        cases ht
        exact Option.isNone_iff_eq_none.mp hgone
      · exact h.startRm hen.1 htmp fun hnone => hgone (by rw [hnone]; rfl)
      · exact .put_same herror (fire_untarLock _ _ _)
  | rmRemoves tmp => exact h.rmRemoves hen
  | rmEnds tmp removed worked =>
    exact .put_same (hi.rmEnds hnext hen.1 hen.2) (fire_untarLock _ _ _)

end Runs

section Placed

variable {ι δ : Type*} {w : World ι δ}

/-- At most one directory has changed. -/
theorem unpacked_of_dirs {l : ι × Act δ} {v : World ι δ} (tmp : δ)
    (hdirs : ∀ t, t ≠ tmp → v.dirs t = w.dirs t)
    (hnew : ∀ d, v.dirs tmp = some d → d.content = .whole →
      w.dirs tmp = some d ∨ l.2 = .tarEnds tmp true) (t : δ) (d : Dir ι) (hd : v.dirs t = some d)
    (hwhole : d.content = .whole) : w.dirs t = some d ∨ l.2 = .tarEnds t true := by
  by_cases ht : t = tmp
  · rw [ht] at hd ⊢
    exact hnew d hd hwhole
  · rw [hdirs t ht] at hd
    exact .inl hd

variable [DecidableEq ι] {i : ι}

theorem Placed.put {l : ι × Act δ} (a : Agent δ) : Placed w l (w.put i a) :=
  ⟨.inl rfl, fun _ _ hd _ => .inl hd⟩

variable [DecidableEq δ] {next : Path → Fs.Event → Path} {driver : Driver} {act : Act δ}

theorem Placed.makeDir {l : ι × Act δ} (tmp : δ) (result : Mkdir) (a : Agent δ) :
    Placed w l ((w.makeDir i tmp result).put i a) := by
  cases hd : w.dirs tmp with
  | some d =>
    have hsame : (w.makeDir i tmp result).dirs = w.dirs := by
      cases result with
      | failed => rfl
      | made | left =>
        show Function.update w.dirs tmp (some ((w.dirs tmp).getD _)) = _
        rw [hd, Option.getD_some, ← hd, Function.update_eq_self]
    refine ⟨.inl ?_, fun t d hd _ => .inl (hsame ▸ hd)⟩
    cases result <;> rfl
  | none =>
    by_cases hmade : result = .failed
    · subst hmade
      exact .put a
    · rw [makeDir_of_none hd hmade]
      refine ⟨.inl rfl, unpacked_of_dirs tmp
        (fun t ht => Function.update_of_ne ht _ _) fun d hnew hwhole => ?_⟩
      cases (Function.update_self tmp _ w.dirs).symm.trans hnew
      cases hwhole

theorem Placed.setContent {tmp : δ} (worked : Bool) {l : ι × Act δ} (a : Agent δ)
    (hl : worked = true → l.2 = .tarEnds tmp true) :
    Placed w l ((w.setContent tmp (if worked then .whole else .partly)).put i a) := by
  refine ⟨.inl rfl, unpacked_of_dirs tmp
    (fun t ht => Function.update_of_ne ht _ _) fun d hnew hwhole => ?_⟩
  cases worked with
  | true => exact .inr (hl rfl)
  | false =>
    obtain ⟨d', -, rfl⟩ := Option.map_eq_some_iff.mp
      ((Function.update_self tmp _ w.dirs).symm.trans hnew)
    cases hwhole

theorem Placed.removeDir {l : ι × Act δ} (tmp : δ) (a : Agent δ) :
    Placed w l ((w.removeDir tmp).put i a) := by
  refine ⟨.inl rfl, unpacked_of_dirs tmp
    (fun t ht => Function.update_of_ne ht _ _) fun d hnew _ => ?_⟩
  cases (removeDir_self w tmp).symm.trans hnew

theorem Placed.renameDir {tmp : δ} {l : ι × Act δ} (a : Agent δ)
    (hl : l.2 = .placeOsImage tmp true ∨ l.2 = .zfsRenames tmp) (hbase : w.basefs = none)
    (hd : w.dirs tmp = some ⟨.whole, some l.1⟩) : Placed w l ((w.renameDir tmp).put i a) := by
  refine ⟨.inr ⟨hbase, ?_, tmp, hl, hd, removeDir_self w tmp⟩, ?_⟩
  · show (w.dirs tmp).map Dir.content = _
    rw [hd]
    rfl
  · exact (Placed.removeDir (i := i) tmp a).unpacked

/-- Base images and whole directories come from nowhere else. -/
theorem Inv.placed (h : Inv w) (hen : Enabled driver w i act) :
    Placed w (i, act) (BaseImages.effect next w i act) := by
  have hi := h.agents i
  cases act with
  | makeTmpDir | mkdirEnds => exact .makeDir _ _ _
  | rmRemoves => exact .removeDir _ _
  | zfsRenames tmp =>
    have hwait : (w.agents i).wait = .zfsRename tmp false := hen.1
    have hmem : (w.agents i).wait ∈ [.zfsSnapshot tmp, .zfsRename tmp false] :=
      hwait ▸ List.mem_cons_of_mem _ List.mem_cons_self
    obtain ⟨-, -, hbase, hd⟩ := hi.of_zfsPlacing hmem
    exact .renameDir _ (.inr rfl) hbase hd
  | placeOsImage tmp renamed =>
    obtain ⟨t, ha, -, hbase, hd⟩ := hi.of_placing hen.1
    simp only [BaseImages.effect]
    split_ifs with hsome hrenamed
    · exact .put _
    · obtain rfl : t = tmp := by
        have htmp := hen.2.2.1
        rw [ha] at htmp
        exact Option.some.inj htmp
      exact .renameDir _ (.inl (by rw [hrenamed])) hbase hd
    · exact .put _
  | tarEnds tmp worked => exact .setContent _ _ fun hworked => by rw [hworked]
  | deleteTmp resolved =>
    simp only [BaseImages.effect]
    split
    · exact .put _
    · next tmp _ =>
      split_ifs
      · exact .put _
      · exact Placed.setContent false _ fun hworked => nomatch hworked
      · exact .put _
  | lockOsImage result => cases result <;> exact .put _
  | zfsPlace tmp result =>
    simp only [BaseImages.effect]
    split_ifs
    · exact .put _
    · cases result <;> exact .put _
  | zfsSnapshotEnds tmp worked => cases worked <;> exact .put _
  | _ => exact .put _

end Placed

section Safe

variable {ι δ : Type*} {w : World ι δ} {i : ι}

theorem AgentOk.locked {basefs : Option Content} {dirs : δ → Option (Dir ι)} {a : Agent δ}
    (h : AgentOk basefs dirs i a) (hpath : a.path ∈ lockedPaths) :
    a.untarLock = some true := by
  cases h with
  | later hmem =>
    have hall : ∀ path ∈ laterPaths, path ∉ lockedPaths := by decide
    exact absurd hpath (hall _ hmem)
  | checking | finding | making | untaring | placing | zfsPlacing | zfsPlaced | analyzing
  | unlocking => rfl
  | _ => simp [lockedPaths] at hpath

theorem AgentOk.final {basefs : Option Content} {dirs : δ → Option (Dir ι)} {a : Agent δ}
    (h : AgentOk basefs dirs i a) (hpath : a.path ∈ finalPaths) :
    a.untarLock = none ∧ (a.rmFailed = true ∨ OnlyAt dirs i none) := by
  cases h with
  | later hmem =>
    have hall : ∀ path ∈ laterPaths, path ∉ finalPaths := by decide
    exact absurd hpath (hall _ hmem)
  | running _ honly => exact ⟨rfl, .inr honly⟩
  | aborted _ hclean => exact ⟨rfl, hclean⟩
  | _ => simp [finalPaths] at hpath

theorem Inv.safe (h : Inv w) : Safe w := by
  have hlocked : ∀ i, (w.agents i).Between → (w.agents i).untarLock = some true :=
    fun i hi => hi.elim id (h.agents i).locked
  refine ⟨fun i j hi hj => ?_, fun i hi => (h.agents i).locked hi, fun i hi => ?_,
    fun i hi => ((h.agents i).final hi).1, fun i hi => ?_⟩
  · exact h.exclusive i j (hlocked i hi) (hlocked j hj)
  · obtain ⟨-, -, -, hbase, -⟩ := (h.agents i).of_untaring (.inr hi)
    exact hbase
  · exact ((h.agents i).final hi).2.imp_right
      fun honly tmp d hd hmaker => nomatch honly tmp d hd hmaker

end Safe

/-- In every run in which the zfs driver does not fail with a temporary directory it has
forgotten, base images are unpacked once and whole. -/
theorem unpacked_once_and_whole {ι δ : Type*} [DecidableEq ι] [DecidableEq δ]
    (next : Path → Fs.Event → Path) (hnext : Follows table next) (driver : Driver)
    (past : List (World ι δ × (ι × Act δ))) (w : World ι δ)
    (run : (fsRuns next driver).Run past w)
    (hkeeps : AllSteps (fun _ l => ¬LosesTmp l.2) past) :
    Always Safe past w ∧ EachTransition Placed past w := by
  have hinv : Always Inv past w := by
    apply run.always_of_allSteps _ _ hkeeps
    · rintro w ⟨hagents, hdirs⟩
      refine ⟨fun i => ?_, fun i _ hi => ?_⟩
      · rw [hagents i]
        refine .new fun tmp d hd hmaker => ?_
        rw [hdirs tmp d hd] at hmaker
        cases hmaker
      · rw [hagents i] at hi
        cases hi
    · rintro w ⟨i, act⟩ w' hI hok ⟨hwait, hen, rfl⟩
      exact hI.of_kept hwait (hI.effect hnext hen hok)
  refine ⟨⟨hinv.1.safe, fun e he => (hinv.2 e he).safe⟩, ?_⟩
  refine run.eachTransition_of_always (I := Inv) ?_ hinv
  rintro w ⟨i, act⟩ w' hI ⟨-, hen, rfl⟩
  exact hI.placed hen

section Examples

instance (a : Agent Unit) (m : Fs.Method) : Decidable (a.At m) :=
  inferInstanceAs (Decidable (_ ∧ _))

instance (driver : Driver) (w : World Unit Unit) (i : Unit) (act : Act Unit) :
    Decidable (Enabled driver w i act) := by
  cases act <;> unfold Enabled <;> infer_instance

instance (act : Act Unit) : Decidable (LosesTmp act) := by
  unfold LosesTmp
  split <;> infer_instance

/-- The run the acts of a single agent make, and whether each of them can be taken. -/
def replay (driver : Driver) : List (World Unit Unit × (Unit × Act Unit)) → World Unit Unit →
    List (Act Unit) → List (World Unit Unit × (Unit × Act Unit)) × World Unit Unit × Bool
  | past, w, [] => (past, w, true)
  | past, w, act :: rest =>
    let r := replay driver ((w, ((), act)) :: past) (effect (table.next 2) w () act) rest
    (r.1, r.2.1, decide (Enabled driver w () act) && r.2.2)

theorem replay_run (driver : Driver) (past : List (World Unit Unit × (Unit × Act Unit)))
    (w : World Unit Unit) (run : (fsRuns (table.next 2) driver).Run past w)
    (acts : List (Act Unit)) (h : (replay driver past w acts).2.2 = true) :
    (fsRuns (table.next 2) driver).Run (replay driver past w acts).1
      (replay driver past w acts).2.1 := by
  induction acts generalizing past w with
  | nil => exact run
  | cons act rest ih =>
    simp only [replay, Bool.and_eq_true, decide_eq_true_eq] at h
    exact ih _ _ (run.extend ⟨fun j hj => absurd rfl hj, h.1, rfl⟩) h.2

/-- A node without the base image. -/
def bare : World Unit Unit where
  agents _ := .new
  dirs _ := none
  basefs := none

theorem bare_run (driver : Driver) : (fsRuns (table.next 2) driver).Run [] bare :=
  System.Run.start ⟨fun _ => rfl, fun _ _ h => nomatch h⟩

/-- The image is unpacked with mkdir and put into place. -/
def unpack : List (Act Unit) :=
  [.run, .lockOsImage .taken, .checkBaseDir, .findTmpDir (), .makeTmpDir () .made, .startTar,
    .tarEnds () true, .placeOsImage () true, .analyzeOsImage true, .unlockOsImage]

/-- The image is unpacked into a dataset of which no snapshot can be made. -/
def failedSnapshot : List (Act Unit) :=
  [.run, .lockOsImage .taken, .checkBaseDir, .findTmpDir (), .startMkdir, .mkdirEnds () .made,
    .startTar, .tarEnds () true, .zfsPlace () .started, .zfsSnapshotEnds () false,
    .unlockOsImage, .deleteTmp true]

theorem unpacked_once_and_whole_overlayfs :
    Always Safe (replay .overlayfs [] bare unpack).1 (replay .overlayfs [] bare unpack).2.1 ∧
      EachTransition Placed (replay .overlayfs [] bare unpack).1
        (replay .overlayfs [] bare unpack).2.1 := by
  have run := replay_run .overlayfs [] _ (bare_run _) unpack (by decide +kernel)
  exact unpacked_once_and_whole _ (follows_next fs_total) _ _ _ run (by
    show ∀ e ∈ (replay .overlayfs [] bare unpack).1, ¬LosesTmp e.2.2
    decide +kernel)

/-- The agent has given up, and the dataset stays. -/
theorem zfs_leaves_dataset :
    ¬∀ (past : List (World Unit Unit × (Unit × Act Unit))) (w : World Unit Unit),
      (fsRuns (table.next 2) .zfs).Run past w → Always Safe past w := by
  intro h
  have run := replay_run .zfs [] _ (bare_run _) failedSnapshot (by decide +kernel)
  have hsafe := (h _ _ run).1
  rcases hsafe.cleaned () (by decide +kernel) with hfailed | hclean
  · revert hfailed
    decide +kernel
  · exact hclean () ⟨.whole, some ()⟩ (by decide +kernel) rfl

end Examples

end Qvd.BaseImages
