import Qvd.HttpHeads

/-!
The handlers of the VMA's slave server: what they write to the client, what they do to the files
and which programs they start. The checks whose error senders do not leave the handler.
-/
namespace Qvd.SlaveServer

open LineText HttpHeads

/-- What the server finds: its session key, the files, and which of its calls to the system
succeed. `catdir` is the library's, relative paths are below its working directory. -/
structure Host where
  authenticationKey : Text
  sharesPath : Text
  isDir : Text → Bool
  present : Text → Bool
  searchable : Text → Bool
  sftpServer : Bool
  mkdirs : Text → Bool
  rmdirs : Text → Bool
  forks : Bool
  chdirs : Text → Bool
  execs : Bool
  catdir : List Text → Text

/-- A response head, or a call to the system that has succeeded. -/
inductive Action
  | respond (code : ℕ)
  | mkdir (path : Text)
  | rmdir (path : Text)
  | fork
  | exec (path : Text)
deriving DecidableEq

def Action.isHead : Action → Bool
  | .respond _ => true
  | _ => false

/-- The end of a handler: it returns, its process is gone, or it throws. -/
inductive Ending
  | returned
  | gone
  | threw (code : ℕ)
  | died
deriving DecidableEq

section Headers

/-- The key of the Authorization header. -/
def requestKey (headers : List Text) : Option Text :=
  (headerLookup headers "Authorization".toList).bind fun credentials =>
    if "Basic ".toList.isPrefixOf credentials then some (credentials.drop 6) else none

/-- A value that is neither empty nor `0`. -/
def truthy (value : Text) : Bool := value ≠ [] && value ≠ ['0']

def upgrade (headers : List Text) : Bool :=
  headerLookup headers "Connection".toList = some "Upgrade".toList &&
    (headerLookup headers "Upgrade".toList).any truthy

/-- The pattern at the start of a text; a point in it is any character. -/
def matchesAt : Text → Text → Bool
  | [], _ => true
  | '.' :: pattern, c :: text => c ≠ '\n' && matchesAt pattern text
  | d :: pattern, c :: text => c = d && matchesAt pattern text
  | _ :: _, [] => false

def protocol (pattern : Text) (headers : List Text) : Bool :=
  (headerLookup headers "Upgrade".toList).any fun value => value.tails.any (matchesAt pattern)

end Headers

section Urls

/-- `_url_to_mount_point`, of a URL in one line. -/
def urlToMountPoint (url : Text) : Text :=
  let name := (url.rdropWhile (· ∈ [':', '/', '\\'])).rtakeWhile (· ∉ ['/', '\\'])
  if name = [] then "Root".toList else name

/-- `_url_to_path`. -/
def urlToPath (host : Host) (url : Text) : Text :=
  host.catdir ((url.splitOn '/').drop 2)

/-- `m!/open/(.*)!`. -/
def openPath (url : Text) : Text :=
  ((url.tails.find? ("/open/".toList.isPrefixOf ·)).getD []).drop 6

end Urls

section Handlers

variable (host : Host) (url : Text) (headers : List Text)

/-- `auth`: the error it throws. -/
def auth : Option ℕ :=
  if (headerLookup headers "Authorization".toList).isNone then some 401
  else if requestKey headers = some host.authenticationKey then none
  else some 403

/-- An error is sent unless the check is passed, and the handler goes on. -/
def refusal (passed : Bool) (code : ℕ) : List Action :=
  if passed then [] else [.respond code]

/-- A call to the system is an action if it succeeds. -/
def done (succeeds : Bool) (action : Action) : List Action :=
  if succeeds then [action] else []

def sftp : Text := "qvd:sftp/1.0".toList

def usbip : Text := "qvd:usbip/1.0".toList

/-- The mount point cannot be emptied. -/
def conflict (mountPoint : Text) : Bool :=
  host.present mountPoint && !host.rmdirs mountPoint

def handlePutShare : List Action × Ending :=
  match auth host headers with
  | some code => ([], .threw code)
  | none =>
    let mountPoint := host.sharesPath ++ '/' :: urlToMountPoint url
    let before := refusal (upgrade headers) 400 ++ refusal (protocol sftp headers) 400 ++
      done (!host.isDir host.sharesPath && host.mkdirs host.sharesPath)
        (.mkdir host.sharesPath) ++
      done (host.present mountPoint && host.rmdirs mountPoint) (.rmdir mountPoint) ++
      refusal (!conflict host mountPoint) 409
    -- What is still there cannot be made.
    if !conflict host mountPoint && host.mkdirs mountPoint then
      (before ++ [.mkdir mountPoint, .respond 101] ++ done host.execs (.exec mountPoint), .gone)
    else (before, .died)

/-- What the child does, or the handler itself where it cannot fork. The child answers an
exception as the server does. -/
def exportDirectory (dir : Text) : List Action :=
  if host.chdirs dir && host.execs then [.exec dir] else [.respond 500]

def handleGetShare : List Action × Ending :=
  let before := refusal (upgrade headers) 400
  if !protocol sftp headers then (before ++ [.respond 400], .returned)
  else
    let dir := urlToPath host url
    if !host.isDir dir then (before ++ [.respond 404], .returned)
    else
      let before := before ++ refusal (host.searchable dir) 403
      if !host.sftpServer then (before ++ [.respond 501], .returned)
      else (before ++ [.respond 101] ++ done host.forks .fork ++ exportDirectory host dir,
        .returned)

/-- The file to be opened, below the share of the ticket. -/
def sharedFile : Text :=
  host.sharesPath ++ '/' :: (headerLookup headers "X-QVD-Share-Ticket".toList).getD [] ++
    '/' :: openPath url

def handleOpen : List Action × Ending :=
  match auth host headers with
  | some code => ([], .threw code)
  | none =>
    let before := refusal (host.present (sharedFile host url headers)) 404
    let child := if host.execs then [.exec (sharedFile host url headers)] else [.respond 500]
    if host.forks then (before ++ [.fork, .respond 200] ++ child, .returned)
    else if host.execs then (before ++ child, .gone)
    else (before, .died)

def handleUsbip : List Action × Ending :=
  match auth host headers with
  | some code => ([], .threw code)
  | none =>
    let before := refusal (upgrade headers) 400
    if !protocol usbip headers then (before ++ [.respond 400], .returned)
    else if host.execs then (before ++ [.respond 101, .exec []], .gone)
    else (before ++ [.respond 101], .died)

/-- What the server adds when a handler throws. -/
def answered : List Action × Ending → List Action
  | (actions, .threw code) => actions ++ [.respond code]
  | (actions, .died) => actions ++ [.respond 500]
  | (actions, _) => actions

end Handlers

inductive Handler
  | putShare | getShare | openFile | usbip
deriving DecidableEq

structure Request where
  handler : Handler
  url : Text
  headers : List Text

section Law

variable (host : Host) (request : Request)

/-- Everything that a request brings about. -/
def Request.actions : List Action :=
  answered <| match request.handler with
    | .putShare => handlePutShare host request.url request.headers
    | .getShare => handleGetShare host request.url request.headers
    | .openFile => handleOpen host request.url request.headers
    | .usbip => handleUsbip host request.headers

/-- The request has the session key. -/
def Request.Presents : Prop :=
  requestKey request.headers = some host.authenticationKey

/-- The request passes the checks of its handler. -/
def Request.Validated : Prop :=
  match request.handler with
  | .putShare => upgrade request.headers = true ∧ protocol sftp request.headers = true
  | .getShare => upgrade request.headers = true ∧ protocol sftp request.headers = true ∧
      host.isDir (urlToPath host request.url) = true ∧
      host.searchable (urlToPath host request.url) = true ∧ host.sftpServer = true
  | .openFile => host.present (sharedFile host request.url request.headers) = true
  | .usbip => upgrade request.headers = true ∧ protocol SlaveServer.usbip request.headers = true

/-- A name of a file in the directory itself. -/
def IsChild (name : Text) : Prop :=
  name ≠ [] ∧ '/' ∉ name ∧ name ≠ ['.'] ∧ name ≠ ['.', '.']

/-- One head is written; what is done is done for a request that has the key and passes the
checks; and a share is mounted in the directory of the shares. -/
structure Request.Lawful : Prop where
  head : (request.actions host).countP Action.isHead = 1
  allowed : ∀ action ∈ request.actions host, action.isHead = false →
    request.Presents host ∧ request.Validated host
  mounted : request.handler = .putShare → auth host request.headers = none →
    IsChild (urlToMountPoint request.url)

/-- When the handlers keep to it. -/
def Request.Clean : Prop :=
  let h := request.headers
  match request.handler with
  | .putShare => request.Presents host →
      upgrade h = true ∧ protocol sftp h = true ∧
      conflict host (host.sharesPath ++ '/' :: urlToMountPoint request.url) = false ∧
      urlToMountPoint request.url ≠ ['.'] ∧ urlToMountPoint request.url ≠ ['.', '.']
  | .getShare =>
      let dir := urlToPath host request.url
      upgrade h = true ∧ (protocol sftp h = false ∨ host.isDir dir = false ∨
        host.searchable dir = true ∧ (host.sftpServer = false ∨
          request.Presents host ∧ host.chdirs dir = true ∧ host.execs = true))
  | .openFile => request.Presents host →
      host.present (sharedFile host request.url h) = true ∧ host.forks = host.execs
  | .usbip => request.Presents host →
      upgrade h = true ∧ (protocol SlaveServer.usbip h = false ∨ host.execs = true)

end Law

section MountPoints

variable {url : Text}

/-- The name of a mount point is the last part of the URL, if that has one. -/
theorem urlToMountPoint_name : urlToMountPoint url ≠ [] ∧ '/' ∉ urlToMountPoint url := by
  unfold urlToMountPoint
  dsimp only
  split
  · decide
  · rename_i hname
    refine ⟨hname, fun hslash => ?_⟩
    have hnot := List.mem_rtakeWhile_imp hslash
    simp at hnot

theorem isChild_iff : IsChild (urlToMountPoint url) ↔
    urlToMountPoint url ≠ ['.'] ∧ urlToMountPoint url ≠ ['.', '.'] := by
  have hname : urlToMountPoint url ≠ [] ∧ '/' ∉ urlToMountPoint url := urlToMountPoint_name
  obtain ⟨hfilled, hslash⟩ := hname
  exact ⟨fun h => h.2.2, fun h => ⟨hfilled, hslash, h⟩⟩

end MountPoints

section Heads

@[simp] theorem countP_refusal (passed : Bool) (code : ℕ) :
    (refusal passed code).countP Action.isHead = (!passed).toNat := by
  cases passed with
  | false => rfl
  | true => rfl

@[simp] theorem countP_done (succeeds : Bool) (action : Action) :
    (done succeeds action).countP Action.isHead = (succeeds && action.isHead).toNat := by
  cases succeeds with
  | false => rfl
  | true => cases h : action.isHead <;> simp [done, h]

@[simp] theorem isHead_respond (code : ℕ) : (Action.respond code).isHead = true := rfl

@[simp] theorem isHead_mkdir (path : Text) : (Action.mkdir path).isHead = false := rfl

@[simp] theorem isHead_rmdir (path : Text) : (Action.rmdir path).isHead = false := rfl

@[simp] theorem isHead_fork : Action.fork.isHead = false := rfl

@[simp] theorem isHead_exec (path : Text) : (Action.exec path).isHead = false := rfl

theorem isHead_of_mem_refusal {passed : Bool} {code : ℕ} {action : Action}
    (h : action ∈ refusal passed code) : action.isHead = true := by
  unfold refusal at h
  split at h
  · cases h
  · rw [List.mem_singleton.mp h]
    rfl

variable {host : Host} {url : Text} {headers : List Text}

theorem auth_eq_none_iff : auth host headers = none ↔
    requestKey headers = some host.authenticationKey := by
  unfold auth
  cases hfound : headerLookup headers "Authorization".toList with
  | none =>
    rw [Option.isNone_none, if_pos rfl, requestKey, hfound]
    exact iff_of_false (nomatch ·) (nomatch ·)
  | some credentials =>
    rw [Option.isNone_some, if_neg Bool.false_ne_true]
    split
    · rename_i hkey
      exact iff_of_true rfl hkey
    · rename_i hkey
      exact iff_of_false (nomatch ·) hkey

/-- What is written and done when the key is not presented. -/
theorem lawful_of_threw {request : Request} {code : ℕ}
    (hactions : request.actions host = [.respond code])
    (hauth : auth host request.headers ≠ none) : request.Lawful host where
  head := by
    rw [hactions]
    rfl
  allowed := by
    rw [hactions]
    intro action hmem hnot
    rw [List.mem_singleton.mp hmem] at hnot
    cases hnot
  mounted _ hnone := absurd hnone hauth

theorem presents_iff {request : Request} :
    auth host request.headers = none ↔ request.Presents host :=
  auth_eq_none_iff

end Heads

section PutShare

variable {host : Host} {request : Request}

theorem putShare_heads (hput : request.handler = .putShare)
    (hauth : auth host request.headers = none) :
    (request.actions host).countP Action.isHead =
      (!upgrade request.headers).toNat + (!protocol sftp request.headers).toNat +
        (conflict host (host.sharesPath ++ '/' :: urlToMountPoint request.url)).toNat + 1 := by
  unfold Request.actions
  rw [hput]
  dsimp only
  unfold handlePutShare
  rw [hauth]
  dsimp only
  split
  · rename_i hmade
    have hfree : conflict host (host.sharesPath ++ '/' :: urlToMountPoint request.url) = false :=
      (Bool.not_eq_true' _).mp ((Bool.and_eq_true _ _).mp hmade).1
    simp [answered, List.countP_append, List.countP_cons, hfree, Nat.add_assoc]
  · simp [answered, List.countP_append, Nat.add_assoc]

theorem putShare_lawful_iff (hput : request.handler = .putShare) :
    request.Lawful host ↔ request.Clean host := by
  unfold Request.Clean
  rw [hput]
  dsimp only
  rw [← presents_iff]
  cases hauth : auth host request.headers with
  | some code =>
    have hactions : request.actions host = [.respond code] := by
      unfold Request.actions handlePutShare
      rw [hput, hauth]
      rfl
    exact iff_of_true (lawful_of_threw hactions (by simp [hauth])) (nomatch ·)
  | none =>
    have hheads := putShare_heads hput hauth
    constructor
    · rintro ⟨hone, -, hmounted⟩ -
      rw [hheads] at hone
      have hsent : ∀ u p c : Bool, (!u).toNat + (!p).toNat + c.toNat + 1 = 1 →
          u = true ∧ p = true ∧ c = false := by decide
      obtain ⟨hupgrade, hprotocol, hfree⟩ := hsent _ _ _ hone
      exact ⟨hupgrade, hprotocol, hfree, isChild_iff.mp (hmounted hput hauth)⟩
    · intro hclean
      obtain ⟨hupgrade, hprotocol, hfree, hchild⟩ := hclean rfl
      refine ⟨?_, fun _ _ _ => ⟨presents_iff.mp hauth, ?_⟩, fun _ _ => isChild_iff.mpr hchild⟩
      · rw [hheads, hupgrade, hprotocol, hfree]
        rfl
      · unfold Request.Validated
        rw [hput]
        exact ⟨hupgrade, hprotocol⟩

end PutShare

section GetShare

variable {host : Host} {request : Request}

theorem countP_exportDirectory (dir : Text) :
    (exportDirectory host dir).countP Action.isHead = (!(host.chdirs dir && host.execs)).toNat := by
  unfold exportDirectory
  cases host.chdirs dir && host.execs with
  | false => rfl
  | true => rfl

/-- The heads of a request for a directory, by the check that ends it. -/
theorem getShare_heads (hget : request.handler = .getShare) :
    (request.actions host).countP Action.isHead = (!upgrade request.headers).toNat +
      (if protocol sftp request.headers = false then 1
      else if host.isDir (urlToPath host request.url) = false then 1
      else (!host.searchable (urlToPath host request.url)).toNat +
        (if host.sftpServer = false then 1
        else 1 + (!(host.chdirs (urlToPath host request.url) && host.execs)).toNat)) := by
  unfold Request.actions
  rw [hget]
  dsimp only
  unfold handleGetShare
  cases protocol sftp request.headers with
  | false => simp [answered, List.countP_append]
  | true =>
    cases hdir : host.isDir (urlToPath host request.url) with
    | false => simp [answered, List.countP_append, hdir]
    | true =>
      cases hserver : host.sftpServer with
      | false => simp [answered, List.countP_append, hdir]
      | true =>
        simp only [Bool.not_true, Bool.false_eq_true, if_false, answered, List.countP_append,
          countP_refusal, countP_done, countP_exportDirectory, hdir, Bool.true_eq_false]
        simp [Nat.add_assoc]

/-- Something is done only when all checks that leave the handler are passed. -/
theorem getShare_done (hget : request.handler = .getShare) {action : Action}
    (hmem : action ∈ request.actions host) (hdone : action.isHead = false) :
    protocol sftp request.headers = true ∧ host.isDir (urlToPath host request.url) = true ∧
      host.sftpServer = true := by
  have hrefusal : ∀ passed code, action ∉ refusal passed code := by
    intro passed code hrefused
    rw [isHead_of_mem_refusal hrefused] at hdone
    cases hdone
  have hrespond : ∀ code, action ≠ .respond code := by
    rintro code rfl
    cases hdone
  unfold Request.actions at hmem
  rw [hget] at hmem
  dsimp only at hmem
  unfold handleGetShare at hmem
  cases hprotocol : protocol sftp request.headers with
  | false => simp [answered, hprotocol, hrefusal, hrespond] at hmem
  | true =>
    cases hdir : host.isDir (urlToPath host request.url) with
    | false => simp [answered, hprotocol, hdir, hrefusal, hrespond] at hmem
    | true =>
      cases hserver : host.sftpServer with
      | false => simp [answered, hprotocol, hdir, hserver, hrefusal, hrespond] at hmem
      | true => exact ⟨rfl, rfl, rfl⟩

/-- The program is run when the child can enter the directory. -/
theorem getShare_exec (hget : request.handler = .getShare)
    (hprotocol : protocol sftp request.headers = true)
    (hdir : host.isDir (urlToPath host request.url) = true) (hserver : host.sftpServer = true)
    (hruns : (host.chdirs (urlToPath host request.url) && host.execs) = true) :
    .exec (urlToPath host request.url) ∈ request.actions host := by
  unfold Request.actions
  rw [hget]
  dsimp only
  unfold handleGetShare exportDirectory
  simp only [hprotocol, hdir, hserver, hruns, Bool.not_true, Bool.false_eq_true, if_false, if_true]
  exact List.mem_append_right _ (List.mem_singleton_self _)

theorem getShare_lawful_iff (hget : request.handler = .getShare) :
    request.Lawful host ↔ request.Clean host := by
  unfold Request.Clean
  rw [hget]
  dsimp only
  constructor
  · rintro ⟨hone, hallowed, -⟩
    rw [getShare_heads hget] at hone
    have hsent : ∀ u s r : Bool, (!u).toNat + ((!s).toNat + (1 + (!r).toNat)) = 1 →
        u = true ∧ s = true ∧ r = true := by decide
    cases hprotocol : protocol sftp request.headers with
    | false =>
      rw [if_pos hprotocol] at hone
      exact ⟨(hsent _ true true (by simpa using hone)).1, .inl rfl⟩
    | true =>
      rw [if_neg (by simp [hprotocol])] at hone
      cases hdir : host.isDir (urlToPath host request.url) with
      | false =>
        rw [if_pos hdir] at hone
        exact ⟨(hsent _ true true (by simpa using hone)).1, .inr (.inl rfl)⟩
      | true =>
        rw [if_neg (by simp [hdir])] at hone
        cases hserver : host.sftpServer with
        | false =>
          rw [if_pos hserver] at hone
          obtain ⟨hupgrade, hsearch, -⟩ := hsent _ _ true hone
          exact ⟨hupgrade, .inr (.inr ⟨hsearch, .inl rfl⟩)⟩
        | true =>
          rw [if_neg (by simp [hserver])] at hone
          obtain ⟨hupgrade, hsearch, hruns⟩ := hsent _ _ _ hone
          have hexec := getShare_exec hget hprotocol hdir hserver hruns
          obtain ⟨hchdir, hexecs⟩ := (Bool.and_eq_true _ _).mp hruns
          exact ⟨hupgrade, .inr (.inr ⟨hsearch, .inr
            ⟨(hallowed _ hexec rfl).1, hchdir, hexecs⟩⟩)⟩
  · rintro ⟨hupgrade, hclean⟩
    refine ⟨?_, fun action hmem hdone => ?_, fun hput => ?_⟩
    · rw [getShare_heads hget, hupgrade]
      rcases hclean with hprotocol | hdir | ⟨hsearch, hserver | ⟨-, hchdir, hexecs⟩⟩
      · rw [if_pos hprotocol]
        rfl
      · rw [if_pos hdir]
        split
        · rfl
        · rfl
      · rw [hsearch, if_pos hserver]
        split
        · rfl
        · split
          · rfl
          · rfl
      · rw [hsearch, hchdir, hexecs]
        split
        · rfl
        · split
          · rfl
          · split
            · rfl
            · rfl
    · obtain ⟨hprotocol, hdir, hserver⟩ := getShare_done hget hmem hdone
      rcases hclean with hnot | hnot | ⟨hsearch, hnot | ⟨hpresents, -, -⟩⟩
      · cases hprotocol.symm.trans hnot
      · cases hdir.symm.trans hnot
      · cases hserver.symm.trans hnot
      · refine ⟨hpresents, ?_⟩
        unfold Request.Validated
        rw [hget]
        exact ⟨hupgrade, hprotocol, hdir, hsearch, hserver⟩
    · cases hget.symm.trans hput

end GetShare

section Authorized

variable {host : Host} {request : Request}

theorem openFile_actions (hopen : request.handler = .openFile)
    (hauth : auth host request.headers = none) :
    request.actions host =
      refusal (host.present (sharedFile host request.url request.headers)) 404 ++
        (if host.forks then [.fork, .respond 200] else []) ++
        (if host.execs then [.exec (sharedFile host request.url request.headers)]
          else [.respond 500]) := by
  unfold Request.actions
  rw [hopen]
  dsimp only
  unfold handleOpen
  rw [hauth]
  cases host.forks with
  | true => simp [answered]
  | false =>
    cases host.execs with
    | true => simp [answered]
    | false => simp [answered]

theorem openFile_lawful_iff (hopen : request.handler = .openFile) :
    request.Lawful host ↔ request.Clean host := by
  unfold Request.Clean
  rw [hopen]
  dsimp only
  rw [← presents_iff]
  cases hauth : auth host request.headers with
  | some code =>
    have hactions : request.actions host = [.respond code] := by
      unfold Request.actions handleOpen
      rw [hopen, hauth]
      rfl
    exact iff_of_true (lawful_of_threw hactions (by simp [hauth])) (nomatch ·)
  | none =>
    have hactions := openFile_actions hopen hauth
    have hvalid : request.Validated host ↔
        host.present (sharedFile host request.url request.headers) = true := by
      unfold Request.Validated
      rw [hopen]
    constructor
    · rintro ⟨hone, hallowed, -⟩ -
      rw [hactions] at hone hallowed
      cases hforks : host.forks with
      | true =>
        rw [hforks] at hallowed hone
        have hpresent := hvalid.mp (hallowed .fork (by simp) rfl).2
        refine ⟨hpresent, ?_⟩
        cases hexecs : host.execs with
        | true => rfl
        | false =>
          rw [hexecs, hpresent] at hone
          exact absurd hone (by simp [refusal, Action.isHead, List.countP_cons])
      | false =>
        rw [hforks] at hone hallowed
        cases hexecs : host.execs with
        | true =>
          rw [hexecs] at hone hallowed
          have hpresent := hvalid.mp (hallowed (.exec (sharedFile host request.url request.headers))
            (List.mem_append_right _ (List.mem_singleton_self _)) rfl).2
          rw [hpresent] at hone
          exact absurd hone (by simp [refusal, Action.isHead])
        | false =>
          refine ⟨?_, rfl⟩
          simpa [hexecs, List.countP_append] using hone
    · intro hclean
      obtain ⟨hpresent, hsame⟩ := hclean rfl
      refine ⟨?_, fun _ _ _ => ⟨presents_iff.mp hauth, hvalid.mpr hpresent⟩, fun hput => ?_⟩
      · rw [hactions, hpresent, hsame]
        cases host.execs with
        | true => rfl
        | false => rfl
      · cases hopen.symm.trans hput

theorem usbip_actions (husbip : request.handler = .usbip)
    (hauth : auth host request.headers = none) :
    request.actions host = refusal (upgrade request.headers) 400 ++
      (if protocol SlaveServer.usbip request.headers = false then [.respond 400]
      else .respond 101 :: (if host.execs then [.exec []] else [.respond 500])) := by
  unfold Request.actions
  rw [husbip]
  dsimp only
  unfold handleUsbip
  rw [hauth]
  cases protocol SlaveServer.usbip request.headers with
  | false => simp [answered]
  | true =>
    cases host.execs with
    | true => simp [answered]
    | false => simp [answered]

theorem usbip_lawful_iff (husbip : request.handler = .usbip) :
    request.Lawful host ↔ request.Clean host := by
  unfold Request.Clean
  rw [husbip]
  dsimp only
  rw [← presents_iff]
  cases hauth : auth host request.headers with
  | some code =>
    have hactions : request.actions host = [.respond code] := by
      unfold Request.actions handleUsbip
      rw [husbip, hauth]
      rfl
    exact iff_of_true (lawful_of_threw hactions (by simp [hauth])) (nomatch ·)
  | none =>
    have hactions := usbip_actions husbip hauth
    constructor
    · rintro ⟨hone, -, -⟩ -
      rw [hactions, List.countP_append, countP_refusal] at hone
      have hsent : ∀ u r : Bool, (!u).toNat + (1 + (!r).toNat) = 1 → u = true ∧ r = true := by
        decide
      cases hprotocol : protocol SlaveServer.usbip request.headers with
      | false =>
        rw [if_pos hprotocol] at hone
        exact ⟨(hsent _ true hone).1, .inl rfl⟩
      | true =>
        rw [if_neg (by simp [hprotocol])] at hone
        cases hexecs : host.execs with
        | true =>
          rw [hexecs] at hone
          exact ⟨(hsent _ true hone).1, .inr rfl⟩
        | false =>
          rw [hexecs] at hone
          cases (hsent _ false hone).2
    · intro hclean
      obtain ⟨hupgrade, hends⟩ := hclean rfl
      refine ⟨?_, fun action hmem hdone => ⟨presents_iff.mp hauth, ?_⟩, fun hput => ?_⟩
      · rw [hactions, hupgrade]
        rcases hends with hprotocol | hexecs
        · rw [if_pos hprotocol]
          rfl
        · rw [hexecs]
          split
          · rfl
          · rfl
      · unfold Request.Validated
        rw [husbip]
        refine ⟨hupgrade, ?_⟩
        by_contra hnot
        rw [hactions, hupgrade, if_pos (Bool.not_eq_true _ ▸ hnot)] at hmem
        rw [List.mem_singleton.mp hmem] at hdone
        cases hdone
      · cases husbip.symm.trans hput

end Authorized

/-- A request has one answer, and brings about only what it may, exactly if no error sender that
does not leave the handler, no failing call to the system and no missing check gets in the way. -/
theorem lawful_iff (host : Host) (request : Request) :
    request.Lawful host ↔ request.Clean host := by
  cases hhandler : request.handler with
  | putShare => exact putShare_lawful_iff hhandler
  | getShare => exact getShare_lawful_iff hhandler
  | openFile => exact openFile_lawful_iff hhandler
  | usbip => exact usbip_lawful_iff hhandler

section Stranger

/-- A server on which everything works and nothing is shared yet. -/
def server : Host where
  authenticationKey := "c2VjcmV0".toList
  sharesPath := "/home/qvd/Redirected".toList
  isDir _ := true
  present _ := false
  searchable _ := true
  sftpServer := true
  mkdirs _ := true
  rmdirs _ := true
  forks := true
  chdirs _ := true
  execs := true
  catdir parts := ['/'].intercalate parts

/-- A request for a directory without a key, and one with the key for a mount point above the
shares. -/
theorem stranger_served :
    ¬(Request.Lawful server ⟨.getShare, "/shares/home/qvd".toList,
      ["Connection:Upgrade".toList, "Upgrade:qvd:sftp/1.0".toList]⟩) ∧
    (Request.actions server ⟨.getShare, "/shares/home/qvd".toList,
      ["Connection:Upgrade".toList, "Upgrade:qvd:sftp/1.0".toList]⟩) =
        [.respond 101, .fork, .exec "home/qvd".toList] ∧
    ¬(Request.Lawful server ⟨.putShare, "/shares/..".toList,
      ["Authorization:Basic c2VjcmV0".toList, "Connection:Upgrade".toList,
        "Upgrade:qvd:sftp/1.0".toList]⟩) := by
  refine ⟨fun hlawful => ?_, by decide, fun hlawful => ?_⟩
  · have hkey := (hlawful.allowed .fork (by decide) rfl).1
    revert hkey
    unfold Request.Presents
    decide
  · exact (hlawful.mounted rfl (by decide)).2.2.2 (by decide)

end Stranger

end Qvd.SlaveServer
