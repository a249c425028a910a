import Qvd.LineText
import Mathlib.Data.List.Infix
import Mathlib.Data.Nat.Find

/-!
The certificate exceptions of the client: the errors of a connection, the two counters that
decide whether the user is asked, and the file of what has been accepted for good.
-/
namespace Qvd.CertExceptions

open LineText

section Arrays

variable {α : Type*}

/-- `$array->[d] = x`; the places in between have no value. -/
def put (array : List (Option α)) (d : ℕ) (x : α) : List (Option α) :=
  (array ++ List.replicate (d + 1 - array.length) none).set d (some x)

/-- `$array->[d]`. -/
def entry (array : List (Option α)) (d : ℕ) : Option α := array[d]?.join

theorem length_put (array : List (Option α)) (d : ℕ) (x : α) :
    (put array d x).length = max array.length (d + 1) := by
  rw [put, List.length_set, List.length_append, List.length_replicate]
  omega

theorem entry_put (array : List (Option α)) (d e : ℕ) (x : α) :
    entry (put array d x) e = if d = e then some x else entry array e := by
  unfold entry put
  rw [List.getElem?_set, List.length_append, List.length_replicate]
  split
  · rw [if_pos (by omega)]
    rfl
  · rw [List.getElem?_append]
    split
    · rfl
    · rw [List.getElem?_replicate, List.getElem?_eq_none (by omega)]
      split
      · rfl
      · rfl

end Arrays

section Certificates

/-- A printed SHA-256 fingerprint: 32 bytes in hexadecimal, with colons. -/
@[ext] structure Fingerprint where
  text : Text
  printed : text.length = 95
deriving DecidableEq

structure Certificate where
  sha256 : Fingerprint
  sigAlgo : Text
  bitLength : ℕ
  subject : List (Text × Text)

/-- An entry of the errors of a certificate. -/
structure SslError where
  errNo : ℕ
  errDepth : ℕ
  errStr : Text

/-- What is known of one depth of the chain. -/
structure CertInfo where
  errors : List SslError
  certificate : Option Certificate

/-- `$ci->{fingerprint}->{sha256}`. -/
def CertInfo.sha256 (info : CertInfo) : Text :=
  info.certificate.elim [] (·.sha256.text)

/-- An accepted certificate. -/
structure AcceptedCert where
  algo : Text
  fingerprint : Text
  description : List (Text × Text)
  errors : List ℕ

abbrev AcceptedCerts := Text → Option AcceptedCert

/-- What is loaded from the file, if it is there. -/
def contents (file : Option AcceptedCerts) : AcceptedCerts := file.getD fun _ => none

/-- The key under which a certificate is stored. -/
def certKey (algo fingerprint : Text) : Text := algo ++ '$' :: fingerprint

def sha256 : Text := "sha256".toList

def isAccepted (certs : AcceptedCerts) (algo fingerprint : Text) (errNo : ℕ) : Bool :=
  match certs (certKey algo fingerprint) with
  | some cert => cert.errors.any (· = errNo)
  | none => false

end Certificates

section Connections

/-- A call of the verify callback for a certificate of a chain. -/
structure VerifyCall (chain : List Certificate) where
  depth : Fin chain.length
  sslThinks : Bool
  error : SslError

/-- A connection that comes about. OpenSSL reports each certificate of the chain at least once.
`writable` tells whether the file can be written. -/
structure Connection where
  chain : List Certificate
  calls : List (VerifyCall chain)
  reported : ∀ depth, ∃ call ∈ calls, call.depth = depth
  hostnameError : Option Text
  ocspErrors : Option Text
  writable : Bool

/-- The answers 0, 1 and 2 of the user. -/
inductive Answer
  | reject | once | remember
deriving DecidableEq

/-- What becomes of a connection, or of another call. -/
inductive Outcome
  | unasked | rejected | once | remembered | died | failed | deleted
deriving DecidableEq

/-- A value that is neither empty nor `0`. -/
def isTrue (value : Text) : Bool := value ≠ [] && value ≠ ['0']

/-- The hash in the name of an algorithm, if it is one of the insecure ones. -/
def insecureHash (algo : Text) : Option Text :=
  (["md2", "md4", "md5", "sha1"].map String.toList).findSome? fun hash =>
    if hash.isPrefixOf (algo.map Char.toLower) then some (algo.take hash.length) else none

def hostnameErrors (herr : Option Text) : List SslError :=
  ((herr.filter isTrue).map fun text => ⟨1001, 0, text⟩).toList

def algorithmErrors (cert : Certificate) : List SslError :=
  ((insecureHash cert.sigAlgo).map fun hash =>
    ⟨1002, 0, "Insecure hash algorithm: ".toList ++ hash⟩).toList

def keyErrors (cert : Certificate) : List SslError :=
  if cert.bitLength ≠ 0 ∧ cert.bitLength ≤ 1024 then
    [⟨1003, 0, "Weak key: ".toList ++ Nat.toDigits 10 cert.bitLength ++ " bits".toList⟩]
  else []

/-- The texts by which OCSP errors are told apart. -/
def ocspTexts : List (Text × ℕ) :=
  [("OCSP response failed: internalerror".toList, 2100),
   ("request for OCSP failed".toList, 2101),
   ("signer certificate not found".toList, 2102),
   ("missing ocspsigning usage".toList, 2103),
   ("root ca not trusted".toList, 2104),
   ("certificate verify error".toList, 2105),
   ("certificate status is revoked".toList, 2001)]

def ocspErrNo (oerr : Text) : ℕ :=
  ((ocspTexts.find? fun text => text.1 <:+: oerr).map (·.2)).getD 2200

def ocspErrors (oerr : Option Text) : List SslError :=
  ((oerr.filter isTrue).map fun text => ⟨ocspErrNo text, 0, text⟩).toList

end Connections

section Client

/-- The client: the exceptions it has loaded, what it knows of the connection, its counters, and
the file of the exceptions. -/
structure Client where
  acceptedCerts : AcceptedCerts
  certInfo : List (Option CertInfo)
  sslErrors : ℕ
  sslIgnoredErrors : ℕ
  file : Option AcceptedCerts

namespace Client

variable (s : Client)

def infoAt (depth : ℕ) : CertInfo := (entry s.certInfo depth).getD ⟨[], none⟩

/-- An error is counted, and counted as ignored if it is accepted for the certificate. -/
def count (depth errNo : ℕ) : Client :=
  { s with
    sslErrors := s.sslErrors + 1
    sslIgnoredErrors := s.sslIgnoredErrors +
      if isAccepted s.acceptedCerts sha256 (s.infoAt depth).sha256 errNo then 1 else 0 }

def setInfo (depth : ℕ) (info : CertInfo) : Client :=
  { s with
    certInfo := put s.certInfo depth info }

def addSslError (depth : ℕ) (error : SslError) : Client :=
  let info := s.infoAt depth
  (s.setInfo depth ⟨info.errors ++ [error], info.certificate⟩).count depth error.errNo

def sslVerifyCallback {chain : List Certificate} (call : VerifyCall chain) : Client :=
  let errors := (s.infoAt call.depth).errors
  let certificate := some (chain.get call.depth)
  if call.sslThinks then s.setInfo call.depth ⟨errors, certificate⟩
  else (s.setInfo call.depth ⟨errors ++ [call.error], certificate⟩).count call.depth
    call.error.errNo

def addSslErrors (depth : ℕ) (errors : List SslError) : Client :=
  errors.foldl (fun s error => s.addSslError depth error) s

/-- The checks of the hash algorithm and the key size. -/
def checkCertificate (depth : ℕ) : Client :=
  s.addSslErrors depth <|
    (s.infoAt depth).certificate.elim [] fun cert => algorithmErrors cert ++ keyErrors cert

def loadAcceptedCerts : Client :=
  { s with
    acceptedCerts := contents s.file }

def saveAcceptedCerts (writable : Bool) : Client :=
  if writable then
    { s with
      file := some s.acceptedCerts }
  else s

/-- `accept_cert`, or nothing if it dies. The description is a hash, which is never false. -/
def acceptCert (writable : Bool) (cert : AcceptedCert) : Option Client :=
  if isTrue cert.algo && isTrue cert.fingerprint then
    some <| Client.saveAcceptedCerts
      { s with
        acceptedCerts :=
          Function.update s.acceptedCerts (certKey cert.algo cert.fingerprint) (some cert) }
      writable
  else none

/-- Only what is in memory changes. -/
def deleteException (algo fingerprint : Text) : Client :=
  { s with
    acceptedCerts := Function.update s.acceptedCerts (certKey algo fingerprint) none }

/-- The errors of a connection. -/
def collect (conn : Connection) : Client :=
  let s : Client :=
    { s.loadAcceptedCerts with
      certInfo := []
      sslErrors := 0
      sslIgnoredErrors := 0 }
  let s := conn.calls.foldl (fun s call => s.sslVerifyCallback call) s
  let s := s.addSslErrors 0 (hostnameErrors conn.hostnameError)
  let s := (List.range s.certInfo.length).foldl checkCertificate s
  s.addSslErrors 0 (CertExceptions.ocspErrors conn.ocspErrors)

end Client

/-- What is stored of a certificate. -/
def CertInfo.toAccepted (info : CertInfo) : AcceptedCert where
  algo := CertExceptions.sha256
  fingerprint := info.sha256
  description := info.certificate.elim [] (·.subject)
  errors := info.errors.map (·.errNo)

namespace Client

def acceptAll (writable : Bool) : List CertInfo → Client → Client × Outcome
  | [], s => (s, .remembered)
  | info :: infos, s =>
    match s.acceptCert writable info.toAccepted with
    | some s => acceptAll writable infos s
    | none => (s, .died)

variable (s : Client)

/-- `_get_httpc` with SSL, from the loading of the exceptions to its end. -/
def getHttpc (conn : Connection) (answer : Answer) : Client × Outcome :=
  let s := s.collect conn
  let errcount : ℤ := (s.sslErrors : ℤ) - s.sslIgnoredErrors
  if errcount > 0 then
    match answer with
    | .reject => (s, .rejected)
    | .once => (s, .once)
    | .remember => acceptAll conn.writable (s.certInfo.map (·.getD ⟨[], none⟩)) s
  else (s, .unasked)

end Client

/-- What the user does with a client. -/
inductive Event
  | connectPlain
  | connectFails
  | connect (conn : Connection) (answer : Answer)
  | delete (algo fingerprint : Text)

def Client.step (s : Client) : Event → Client × Outcome
  | .connectPlain => (s, .unasked)
  | .connectFails => (s.loadAcceptedCerts, .failed)
  | .connect conn answer => s.getHttpc conn answer
  | .delete algo fingerprint => (s.deleteException algo fingerprint, .deleted)

/-- The client at first, without a file. -/
def start : Client := ⟨fun _ => none, [], 0, 0, none⟩

abbrev Log := List (Event × Outcome)

/-- The client after some events, and what became of each. -/
def run (events : List Event) : Client × Log :=
  events.foldl (fun reached event =>
    ((reached.1.step event).1, reached.2 ++ [(event, (reached.1.step event).2)])) (start, [])

theorem run_snoc (events : List Event) (event : Event) :
    run (events ++ [event]) = (((run events).1.step event).1,
      (run events).2 ++ [(event, ((run events).1.step event).2)]) := by
  unfold run
  rw [List.foldl_append]
  rfl

end Client

section Remembered

/-- An error recorded for the certificate of a depth. -/
structure Recorded where
  depth : ℕ
  error : SslError

namespace Connection

variable (conn : Connection)

/-- The errors recorded for a connection. -/
def records : List Recorded :=
  (conn.calls.filter (!·.sslThinks)).map (fun call => ⟨call.depth, call.error⟩) ++
  (hostnameErrors conn.hostnameError).map (⟨0, ·⟩) ++
  (List.range conn.chain.length).flatMap (fun depth =>
    (conn.chain[depth]?.elim [] fun cert => algorithmErrors cert ++ keyErrors cert).map
      (⟨depth, ·⟩)) ++
  (CertExceptions.ocspErrors conn.ocspErrors).map (⟨0, ·⟩)

def HasAt (depth : ℕ) (f : Fingerprint) : Prop :=
  conn.chain[depth]?.map (·.sha256) = some f

def RecordsAt (depth errNo : ℕ) : Prop :=
  ∃ record ∈ conn.records, record.depth = depth ∧ record.error.errNo = errNo

/-- The error is recorded for the certificate. -/
def Records (f : Fingerprint) (errNo : ℕ) : Prop :=
  ∃ depth, conn.HasAt depth f ∧ conn.RecordsAt depth errNo

/-- The deepest place of a certificate in the chain. -/
def LastAt (depth : ℕ) (f : Fingerprint) : Prop :=
  conn.HasAt depth f ∧ ∀ deeper, depth < deeper → ¬conn.HasAt deeper f

end Connection

/-- The entry deletes what is remembered for a certificate. -/
def Deletes (f : Fingerprint) : Event × Outcome → Prop
  | (.delete algo fingerprint, _) => algo = sha256 ∧ fingerprint = f.text
  | _ => False

/-- The error has been remembered for the certificate, and not been deleted since. -/
def Remembered (log : Log) (f : Fingerprint) (errNo : ℕ) : Prop :=
  ∃ before conn answer after, log = before ++ (.connect conn answer, .remembered) :: after ∧
    conn.Records f errNo ∧ ∀ entry ∈ after, ¬Deletes f entry

/-- All errors recorded for a connection have been remembered. -/
def AllRemembered (log : Log) (conn : Connection) : Prop :=
  ∀ depth errNo, conn.RecordsAt depth errNo →
    ∃ f, conn.HasAt depth f ∧ Remembered log f errNo

/-- The error is accepted for the certificate in the file. -/
def Stored (s : Client) (f : Fingerprint) (errNo : ℕ) : Prop :=
  isAccepted (contents s.file) sha256 f.text errNo = true

/-- After some events: the user is asked if and only if there is something to ask, and
remembering a chain changes nothing for another certificate and adds no error that is not
its own. -/
structure Exact (events : List Event) : Prop where
  asks : ∀ conn answer, ((run events).1.getHttpc conn answer).2 = .unasked ↔
    AllRemembered (run events).2 conn
  others : ∀ conn answer f, (∀ depth, ¬conn.HasAt depth f) → ∀ errNo,
    Stored ((run events).1.getHttpc conn answer).1 f errNo ↔ Stored (run events).1 f errNo
  adds : ∀ conn answer f errNo, Stored ((run events).1.getHttpc conn answer).1 f errNo →
    Stored (run events).1 f errNo ∨ conn.Records f errNo

/-- The event keeps what is remembered as it should be: what is remembered for a chain holds all
that has been remembered for its certificates, and nothing is there to be deleted. -/
def Clean (log : Log) : Event → Prop
  | .connect conn .remember => ¬AllRemembered log conn →
      (conn.chain ≠ [] → conn.writable = true) ∧
      ∀ depth f, conn.LastAt depth f → ∀ errNo,
        Remembered log f errNo ∨ conn.Records f errNo → conn.RecordsAt depth errNo
  | .delete algo fingerprint => algo = sha256 → ∀ f : Fingerprint, fingerprint = f.text →
      ∀ errNo, ¬Remembered log f errNo
  | _ => True

end Remembered

section Collecting

variable {chain : List Certificate} {file : Option AcceptedCerts} {s : Client}

/-- The fingerprint of the certificate at a depth, if there is one. -/
def fingerprintAt (chain : List Certificate) (depth : ℕ) : Text :=
  chain[depth]?.elim [] (·.sha256.text)

def Recorded.Ignored (chain : List Certificate) (file : Option AcceptedCerts)
    (record : Recorded) : Bool :=
  isAccepted (contents file) sha256 (fingerprintAt chain record.depth)
    record.error.errNo

/-- What the client has collected are these errors, counted by the exceptions of the file. -/
structure Collected (chain : List Certificate) (file : Option AcceptedCerts)
    (records : List Recorded) (s : Client) : Prop where
  stored : s.file = file
  accepted : s.acceptedCerts = contents file
  errors : ∀ depth, (s.infoAt depth).errors =
    (records.filter (·.depth = depth)).map (·.error)
  total : s.sslErrors = records.length
  ignored : s.sslIgnoredErrors = records.countP (Recorded.Ignored chain file)

/-- The certificate at every depth is the one of the chain. -/
def Synced (chain : List Certificate) (s : Client) : Prop :=
  ∀ depth, (s.infoAt depth).certificate = chain[depth]?

theorem infoAt_setInfo (depth other : ℕ) (info : CertInfo) :
    (s.setInfo depth info).infoAt other = if depth = other then info else s.infoAt other := by
  unfold Client.infoAt Client.setInfo
  dsimp only
  rw [entry_put]
  split
  · rfl
  · rfl

@[simp] theorem infoAt_count (depth errNo other : ℕ) :
    (s.count depth errNo).infoAt other = s.infoAt other := rfl

theorem sha256_of_certificate {info : CertInfo} {depth : ℕ}
    (hcert : info.certificate = chain[depth]?) : info.sha256 = fingerprintAt chain depth := by
  unfold CertInfo.sha256 fingerprintAt
  rw [hcert]

theorem Collected.record {records : List Recorded} (h : Collected chain file records s)
    {depth : ℕ} {error : SslError} {info : CertInfo}
    (herrors : info.errors = (s.infoAt depth).errors ++ [error])
    (hcert : info.certificate = chain[depth]?) :
    Collected chain file (records ++ [⟨depth, error⟩])
      ((s.setInfo depth info).count depth error.errNo) where
  stored := h.stored
  accepted := h.accepted
  errors other := by
    rw [infoAt_count, infoAt_setInfo, List.filter_append, List.map_append, ← h.errors]
    split
    · rename_i hsame
      subst hsame
      rw [herrors, List.filter_cons_of_pos (by simp)]
      rfl
    · rename_i hother
      rw [List.filter_cons_of_neg (by simpa using hother)]
      exact (List.append_nil _).symm
  total := by
    rw [List.length_append, ← h.total]
    rfl
  ignored := by
    unfold Client.count
    dsimp only
    rw [infoAt_setInfo, if_pos rfl, sha256_of_certificate hcert, List.countP_append,
      List.countP_singleton, ← h.ignored]
    change s.sslIgnoredErrors + (if isAccepted s.acceptedCerts _ _ _ = true then 1 else 0) = _
    rw [h.accepted]
    rfl

/-- A call for a certificate that passes. -/
theorem Collected.setInfo {records : List Recorded} (h : Collected chain file records s)
    {depth : ℕ} {info : CertInfo} (herrors : info.errors = (s.infoAt depth).errors) :
    Collected chain file records (s.setInfo depth info) where
  stored := h.stored
  accepted := h.accepted
  errors other := by
    rw [infoAt_setInfo, ← h.errors]
    split
    · rename_i hsame
      rw [herrors, hsame]
    · rfl
  total := h.total
  ignored := h.ignored

theorem Collected.addSslErrors {records : List Recorded} (h : Collected chain file records s)
    (hsynced : Synced chain s) (depth : ℕ) (errors : List SslError) :
    Collected chain file (records ++ errors.map (⟨depth, ·⟩)) (s.addSslErrors depth errors) ∧
      Synced chain (s.addSslErrors depth errors) := by
  induction errors generalizing s records with
  | nil => exact ⟨by rwa [List.map_nil, List.append_nil], hsynced⟩
  | cons error errors ih =>
    have hnext : Synced chain (s.addSslError depth error) := by
      intro other
      unfold Client.addSslError
      dsimp only
      rw [infoAt_count, infoAt_setInfo]
      split
      · rename_i hsame
        rw [← hsame]
        exact hsynced depth
      · exact hsynced other
    have hrecord : Collected chain file (records ++ [⟨depth, error⟩])
        (s.addSslError depth error) := h.record rfl (hsynced depth)
    have hmore := ih hrecord hnext
    rwa [List.append_assoc] at hmore

theorem Collected.calls {records : List Recorded} (h : Collected chain file records s)
    (calls : List (VerifyCall chain)) :
    Collected chain file (records ++
      (calls.filter (!·.sslThinks)).map (fun call => ⟨call.depth, call.error⟩))
      (calls.foldl (fun s call => s.sslVerifyCallback call) s) := by
  induction calls generalizing s records with
  | nil => exact (List.append_nil records).symm ▸ h
  | cons call calls ih =>
    have hcert : some (chain.get call.depth) = chain[(call.depth : ℕ)]? := by
      rw [List.getElem?_eq_getElem call.depth.isLt]
      rfl
    rw [List.foldl_cons]
    unfold Client.sslVerifyCallback
    dsimp only
    cases hthinks : call.sslThinks with
    | true =>
      rw [if_pos rfl, List.filter_cons_of_neg (by simp [hthinks])]
      exact ih (h.setInfo rfl)
    | false =>
      rw [if_neg Bool.false_ne_true, List.filter_cons_of_pos (by simp [hthinks])]
      have hrecord : Collected chain file (records ++ [⟨call.depth, call.error⟩])
          ((s.setInfo call.depth ⟨(s.infoAt call.depth).errors ++ [call.error],
            some (chain.get call.depth)⟩).count call.depth call.error.errNo) :=
        h.record rfl hcert
      have hmore := ih hrecord
      rwa [List.append_assoc] at hmore

end Collecting

section Collection

variable {chain : List Certificate} {s : Client}

theorem certificate_calls (calls : List (VerifyCall chain)) (depth : ℕ) :
    ((calls.foldl (fun s call => s.sslVerifyCallback call) s).infoAt depth).certificate =
      if ∃ call ∈ calls, (call.depth : ℕ) = depth then chain[depth]?
      else (s.infoAt depth).certificate := by
  induction calls generalizing s with
  | nil => simp
  | cons call calls ih =>
    have hcall : ((s.sslVerifyCallback call).infoAt depth).certificate =
        if (call.depth : ℕ) = depth then chain[depth]?
        else (s.infoAt depth).certificate := by
      have hset : ∀ errors, ((s.setInfo call.depth
          ⟨errors, some (chain.get call.depth)⟩).infoAt depth).certificate =
            if (call.depth : ℕ) = depth then chain[depth]?
            else (s.infoAt depth).certificate := by
        intro errors
        rw [infoAt_setInfo]
        split
        · rename_i hsame
          rw [← hsame, List.getElem?_eq_getElem call.depth.isLt]
          rfl
        · rfl
      unfold Client.sslVerifyCallback
      dsimp only
      split
      · exact hset _
      · rw [infoAt_count]
        exact hset _
    rw [List.foldl_cons, ih, hcall]
    by_cases hlater : ∃ call ∈ calls, (call.depth : ℕ) = depth
    · obtain ⟨later, hmem, hdepth⟩ := hlater
      rw [if_pos ⟨later, hmem, hdepth⟩, if_pos ⟨later, List.mem_cons_of_mem _ hmem, hdepth⟩]
    · rw [if_neg hlater]
      simp only [List.mem_cons, exists_eq_or_imp, hlater, or_false]

theorem length_calls (calls : List (VerifyCall chain))
    (hlength : s.certInfo.length ≤ chain.length)
    (hreported : ∀ depth, depth < chain.length →
      depth < s.certInfo.length ∨ ∃ call ∈ calls, (call.depth : ℕ) = depth) :
    (calls.foldl (fun s call => s.sslVerifyCallback call) s).certInfo.length =
      chain.length := by
  induction calls generalizing s with
  | nil =>
    refine le_antisymm hlength (Nat.le_of_not_lt fun hshort => ?_)
    rcases hreported _ hshort with hlt | ⟨call, hmem, hdepth⟩
    · exact absurd hlt (Nat.lt_irrefl _)
    · cases hmem
  | cons call calls ih =>
    have hnext : (s.sslVerifyCallback call).certInfo.length =
        max s.certInfo.length (call.depth + 1) := by
      unfold Client.sslVerifyCallback
      dsimp only
      split
      · exact length_put _ _ _
      · exact length_put _ _ _
    refine ih (hnext ▸ max_le hlength call.depth.isLt) fun depth hdepth => ?_
    change depth < (s.sslVerifyCallback call).certInfo.length ∨ _
    rw [hnext]
    rcases hreported depth hdepth with hlt | ⟨other, hmem, hother⟩
    · exact .inl (by omega)
    · rcases List.mem_cons.mp hmem with rfl | hmem
      · exact .inl (by omega)
      · exact .inr ⟨other, hmem, hother⟩

theorem length_addSslErrors (depth : ℕ) (errors : List SslError) :
    (s.addSslErrors depth errors).certInfo.length =
      if errors = [] then s.certInfo.length else max s.certInfo.length (depth + 1) := by
  induction errors generalizing s with
  | nil => rfl
  | cons error errors ih =>
    have hone : (s.addSslError depth error).certInfo.length =
        max s.certInfo.length (depth + 1) := length_put _ _ _
    rw [if_neg (List.cons_ne_nil _ _)]
    refine ih.trans ?_
    rw [hone]
    split
    · rfl
    · omega

theorem length_addSslErrors_of_lt {depth : ℕ} (h : depth < s.certInfo.length)
    (errors : List SslError) :
    (s.addSslErrors depth errors).certInfo.length = s.certInfo.length := by
  rw [length_addSslErrors]
  split
  · rfl
  · exact max_eq_left h

theorem length_checks {depths : List ℕ} (h : ∀ depth ∈ depths, depth < s.certInfo.length) :
    (depths.foldl Client.checkCertificate s).certInfo.length = s.certInfo.length := by
  induction depths generalizing s with
  | nil => rfl
  | cons depth depths ih =>
    have hone : (s.checkCertificate depth).certInfo.length = s.certInfo.length :=
      length_addSslErrors_of_lt (h depth List.mem_cons_self) _
    rw [List.foldl_cons, ih, hone]
    intro other hmem
    rw [hone]
    exact h other (List.mem_cons_of_mem _ hmem)

variable {file : Option AcceptedCerts} {records : List Recorded}

/-- The errors of the certificate at a depth. -/
def checkErrors (chain : List Certificate) (depth : ℕ) : List SslError :=
  chain[depth]?.elim [] fun cert => algorithmErrors cert ++ keyErrors cert

theorem Collected.checks (h : Collected chain file records s) (hsynced : Synced chain s)
    (depths : List ℕ) :
    Collected chain file
      (records ++ depths.flatMap fun depth => (checkErrors chain depth).map (⟨depth, ·⟩))
      (depths.foldl Client.checkCertificate s) ∧
        Synced chain (depths.foldl Client.checkCertificate s) := by
  induction depths generalizing s records with
  | nil => exact ⟨(List.append_nil records).symm ▸ h, hsynced⟩
  | cons depth depths ih =>
    rw [List.foldl_cons, List.flatMap_cons, ← List.append_assoc]
    unfold Client.checkCertificate
    rw [hsynced depth]
    obtain ⟨hmore, hkept⟩ := h.addSslErrors hsynced depth (checkErrors chain depth)
    exact ih hmore hkept

/-- Beyond the chain there is nothing to check. -/
theorem checkErrors_beyond {depth : ℕ} (h : chain.length ≤ depth) :
    checkErrors chain depth = [] := by
  unfold checkErrors
  rw [List.getElem?_eq_none h]
  rfl

theorem flatMap_checkErrors {n : ℕ} (h : chain.length ≤ n) :
    ((List.range n).flatMap fun depth => (checkErrors chain depth).map (Recorded.mk depth)) =
      (List.range chain.length).flatMap
        fun depth => (checkErrors chain depth).map (Recorded.mk depth) := by
  obtain ⟨more, rfl⟩ := Nat.exists_eq_add_of_le h
  have hbeyond : (((List.range more).map (chain.length + ·)).flatMap
      fun depth => (checkErrors chain depth).map (Recorded.mk depth)) = [] := by
    refine List.flatMap_eq_nil_iff.mpr fun depth hmem => ?_
    obtain ⟨i, -, rfl⟩ := List.mem_map.mp hmem
    rw [checkErrors_beyond (Nat.le_add_right _ _)]
    rfl
  rw [List.range_add, List.flatMap_append, hbeyond, List.append_nil]

end Collection

section Decision

variable (s : Client) (conn : Connection)

theorem collect_spec : Collected conn.chain s.file conn.records (s.collect conn) ∧
    Synced conn.chain (s.collect conn) ∧
    (conn.chain ≠ [] → (s.collect conn).certInfo.length = conn.chain.length) := by
  let fresh : Client := ⟨contents s.file, [], 0, 0, s.file⟩
  let called := conn.calls.foldl (fun s call => s.sslVerifyCallback call) fresh
  let named := called.addSslErrors 0 (hostnameErrors conn.hostnameError)
  let checked := (List.range named.certInfo.length).foldl Client.checkCertificate named
  have hfresh : Collected conn.chain s.file [] fresh :=
    { stored := rfl
      accepted := rfl
      errors := fun _ => rfl
      total := rfl
      ignored := rfl }
  have hlength : called.certInfo.length = conn.chain.length :=
    length_calls conn.calls (Nat.zero_le _) fun depth hdepth => by
      obtain ⟨call, hmem, hcall⟩ := conn.reported ⟨depth, hdepth⟩
      exact .inr ⟨call, hmem, congrArg Fin.val hcall⟩
  have hsynced : Synced conn.chain called := by
    intro depth
    refine (certificate_calls conn.calls depth).trans ?_
    split
    · rfl
    · rename_i hnone
      rw [List.getElem?_eq_none]
      · rfl
      · by_contra hlt
        obtain ⟨call, hmem, hcall⟩ := conn.reported ⟨depth, Nat.lt_of_not_le hlt⟩
        exact hnone ⟨call, hmem, congrArg Fin.val hcall⟩
  have hcalled := hfresh.calls conn.calls
  obtain ⟨hnamed, hkept⟩ :=
    hcalled.addSslErrors hsynced 0 (hostnameErrors conn.hostnameError)
  have hmost : conn.chain.length ≤ named.certInfo.length := by
    rw [← hlength, show named.certInfo.length = _ from length_addSslErrors 0 _]
    split
    · rfl
    · exact le_max_left _ _
  obtain ⟨hchecked, hkept⟩ := hnamed.checks hkept (List.range named.certInfo.length)
  rw [flatMap_checkErrors hmost] at hchecked
  obtain ⟨hdone, hkept⟩ :=
    hchecked.addSslErrors hkept 0 (CertExceptions.ocspErrors conn.ocspErrors)
  refine ⟨hdone, hkept, fun hchain => ?_⟩
  have hfirst : 0 < conn.chain.length := List.length_pos_iff.mpr hchain
  have hlengthNamed : named.certInfo.length = conn.chain.length :=
    (length_addSslErrors_of_lt (hlength ▸ hfirst) _).trans hlength
  have hlengthChecked : checked.certInfo.length = conn.chain.length :=
    (length_checks fun _ hmem => List.mem_range.mp hmem).trans hlengthNamed
  exact (length_addSslErrors_of_lt (hlengthChecked ▸ hfirst) _).trans hlengthChecked

/-- The counters differ if and only if an error is not ignored. -/
theorem errcount_pos_iff {chain : List Certificate} {file : Option AcceptedCerts}
    {records : List Recorded} {s : Client} (h : Collected chain file records s) :
    (s.sslErrors : ℤ) - s.sslIgnoredErrors > 0 ↔
      ¬∀ record ∈ records, record.Ignored chain file = true := by
  rw [h.total, h.ignored, ← List.countP_eq_length]
  have hle : records.countP (Recorded.Ignored chain file) ≤ records.length :=
    List.countP_le_length
  omega

end Decision

section Accepting

variable {s : Client} {writable : Bool} {f : Fingerprint}

theorem isTrue_text (f : Fingerprint) : isTrue f.text = true := by
  have hprinted := f.printed
  unfold isTrue
  rw [Bool.and_eq_true, decide_eq_true_eq, decide_eq_true_eq]
  constructor
  · intro hnil
    rw [hnil] at hprinted
    cases hprinted
  · intro hzero
    rw [hzero] at hprinted
    cases hprinted

theorem certKey_inj {algo a b : Text} (h : certKey algo a = certKey algo b) : a = b :=
  (List.cons.inj (List.append_cancel_left h)).2

/-- What is in memory once a certificate is accepted. -/
def Client.withAccepted (s : Client) (info : CertInfo) : AcceptedCerts :=
  Function.update s.acceptedCerts (certKey sha256 info.sha256) (some info.toAccepted)

theorem acceptCert_eq {info : CertInfo} (h : info.sha256 = f.text) :
    s.acceptCert writable info.toAccepted = some
      { s with
        acceptedCerts := s.withAccepted info
        file := if writable then some (s.withAccepted info) else s.file } := by
  unfold Client.acceptCert
  rw [if_pos]
  · unfold Client.saveAcceptedCerts
    split
    · rfl
    · rfl
  · change (isTrue sha256 && isTrue info.sha256) = true
    rw [h, isTrue_text f]
    decide

/-- Each certificate has a fingerprint. -/
def Named (infos : List CertInfo) : Prop :=
  ∀ info ∈ infos, ∃ f : Fingerprint, info.sha256 = f.text

theorem acceptAll_outcome {infos : List CertInfo} (h : Named infos) :
    (Client.acceptAll writable infos s).2 = .remembered := by
  induction infos generalizing s with
  | nil => rfl
  | cons info infos ih =>
    obtain ⟨f, hf⟩ := h info List.mem_cons_self
    unfold Client.acceptAll
    rw [acceptCert_eq hf]
    exact ih fun info hmem => h info (List.mem_cons_of_mem _ hmem)

theorem acceptAll_file {infos : List CertInfo} (h : Named infos) :
    (Client.acceptAll writable infos s).1.file =
      if infos ≠ [] ∧ writable = true then
        some (Client.acceptAll writable infos s).1.acceptedCerts
      else s.file := by
  induction infos generalizing s with
  | nil => rfl
  | cons info infos ih =>
    obtain ⟨f, hf⟩ := h info List.mem_cons_self
    unfold Client.acceptAll
    rw [acceptCert_eq hf]
    dsimp only
    rw [ih fun info hmem => h info (List.mem_cons_of_mem _ hmem)]
    cases writable with
    | false => simp
    | true =>
      cases infos with
      | nil => rfl
      | cons => simp

theorem acceptAll_others {infos : List CertInfo} (h : Named infos) {text : Text}
    (hothers : ∀ info ∈ infos, info.sha256 ≠ text) :
    (Client.acceptAll writable infos s).1.acceptedCerts (certKey sha256 text) =
      s.acceptedCerts (certKey sha256 text) := by
  induction infos generalizing s with
  | nil => rfl
  | cons info infos ih =>
    obtain ⟨g, hg⟩ := h info List.mem_cons_self
    unfold Client.acceptAll
    rw [acceptCert_eq hg]
    dsimp only
    rw [ih (fun info hmem => h info (List.mem_cons_of_mem _ hmem))
      (fun info hmem => hothers info (List.mem_cons_of_mem _ hmem))]
    exact Function.update_of_ne
      (fun hsame => hothers info List.mem_cons_self (certKey_inj hsame).symm) _ _

/-- The deepest certificate with a fingerprint is the one that is stored. -/
theorem acceptAll_last {infos : List CertInfo} (h : Named infos) {depth : ℕ} {info : CertInfo}
    (hinfo : infos[depth]? = some info) (hf : info.sha256 = f.text)
    (hlast : ∀ deeper, depth < deeper → ∀ other, infos[deeper]? = some other →
      other.sha256 ≠ f.text) :
    (Client.acceptAll writable infos s).1.acceptedCerts (certKey sha256 f.text) =
      some info.toAccepted := by
  induction infos generalizing s depth with
  | nil => cases hinfo
  | cons first infos ih =>
    obtain ⟨g, hg⟩ := h first List.mem_cons_self
    have hrest : Named infos := fun info hmem => h info (List.mem_cons_of_mem _ hmem)
    unfold Client.acceptAll
    rw [acceptCert_eq hg]
    dsimp only
    cases depth with
    | zero =>
      cases hinfo
      have hothers : ∀ info ∈ infos, info.sha256 ≠ f.text := by
        intro other hmem
        obtain ⟨i, hi⟩ := List.mem_iff_getElem?.mp hmem
        exact hlast (i + 1) (Nat.succ_pos i) other hi
      rw [acceptAll_others hrest hothers, ← hf]
      exact Function.update_self _ _ _
    | succ depth =>
      exact ih hrest hinfo fun deeper hdeeper other hother =>
        hlast (deeper + 1) (Nat.succ_lt_succ hdeeper) other hother

/-- Without certificates nothing is stored. -/
theorem acceptAll_nameless {infos : List CertInfo}
    (h : ∀ info ∈ infos, info.certificate = none) :
    (Client.acceptAll writable infos s).1.file = s.file := by
  cases infos with
  | nil => rfl
  | cons info infos =>
    have hnone : info.sha256 = [] := by
      unfold CertInfo.sha256
      rw [h info List.mem_cons_self]
      rfl
    have hdies : s.acceptCert writable info.toAccepted = none := by
      unfold Client.acceptCert
      refine if_neg ?_
      change ¬(isTrue sha256 && isTrue info.sha256) = true
      rw [hnone]
      decide
    unfold Client.acceptAll
    rw [hdies]

end Accepting

section Leaves

variable {s : Client} {conn : Connection} {answer : Answer}

theorem getElem?_infos (s : Client) {depth : ℕ} (h : depth < s.certInfo.length) :
    (s.certInfo.map (·.getD ⟨[], none⟩))[depth]? = some (s.infoAt depth) := by
  unfold Client.infoAt entry
  rw [List.getElem?_map, List.getElem?_eq_getElem h]
  rfl

theorem eq_infoAt {depth : ℕ} {info : CertInfo}
    (h : (s.certInfo.map (·.getD ⟨[], none⟩))[depth]? = some info) :
    depth < s.certInfo.length ∧ info = s.infoAt depth := by
  have hlt := (List.getElem?_eq_some_iff.mp h).1
  rw [List.length_map] at hlt
  rw [getElem?_infos s hlt] at h
  exact ⟨hlt, (Option.some.inj h).symm⟩

theorem mem_infos {info : CertInfo} (h : info ∈ s.certInfo.map (·.getD ⟨[], none⟩)) :
    ∃ depth, depth < s.certInfo.length ∧ info = s.infoAt depth := by
  obtain ⟨depth, hinfo⟩ := List.mem_iff_getElem?.mp h
  exact ⟨depth, eq_infoAt hinfo⟩

theorem fingerprintAt_eq_iff {depth : ℕ} {f : Fingerprint} :
    fingerprintAt conn.chain depth = f.text ↔ conn.HasAt depth f := by
  unfold fingerprintAt Connection.HasAt
  cases conn.chain[depth]? with
  | none =>
    refine iff_of_false (fun hnil => ?_) (nomatch ·)
    have hprinted := f.printed
    rw [← hnil] at hprinted
    cases hprinted
  | some cert =>
    exact ⟨fun h => congrArg some (Fingerprint.ext h), fun h => by cases h; rfl⟩

theorem hasAt_lt {depth : ℕ} {f : Fingerprint} (h : conn.HasAt depth f) :
    depth < conn.chain.length := by
  by_contra hbeyond
  unfold Connection.HasAt at h
  rw [List.getElem?_eq_none (Nat.le_of_not_lt hbeyond)] at h
  cases h

theorem exists_hasAt {depth : ℕ} (h : depth < conn.chain.length) : ∃ f, conn.HasAt depth f := by
  refine ⟨(conn.chain[depth]).sha256, ?_⟩
  unfold Connection.HasAt
  rw [List.getElem?_eq_getElem h]
  rfl

/-- A certificate that is in the chain has a deepest place. -/
theorem exists_lastAt {depth : ℕ} {f : Fingerprint} (h : conn.HasAt depth f) :
    ∃ last, conn.LastAt last f := by
  classical
  refine ⟨Nat.findGreatest (conn.HasAt · f) conn.chain.length,
    Nat.findGreatest_spec (P := (conn.HasAt · f)) (hasAt_lt h).le h, ?_⟩
  intro deeper hdeeper hhas
  exact Nat.findGreatest_is_greatest hdeeper (hasAt_lt hhas).le hhas

/-- All errors of the connection are ignored by what is in the file. -/
def AllIgnored (s : Client) (conn : Connection) : Prop :=
  ∀ record ∈ conn.records, record.Ignored conn.chain s.file = true

/-- The infos of a chain. -/
theorem named_infos (hchain : conn.chain ≠ []) :
    Named ((s.collect conn).certInfo.map (·.getD ⟨[], none⟩)) := by
  obtain ⟨-, hsynced, hlength⟩ := collect_spec s conn
  intro info hmem
  obtain ⟨depth, hdepth, rfl⟩ := mem_infos hmem
  obtain ⟨f, hhas⟩ := exists_hasAt (hlength hchain ▸ hdepth)
  exact ⟨f, (sha256_of_certificate (hsynced depth)).trans (fingerprintAt_eq_iff.mpr hhas)⟩

theorem infos_ne_nil (hchain : conn.chain ≠ []) :
    (s.collect conn).certInfo.map (·.getD ⟨[], none⟩) ≠ [] := by
  obtain ⟨-, -, hlength⟩ := collect_spec s conn
  intro hnil
  have hzero := congrArg List.length hnil
  rw [List.length_map, hlength hchain] at hzero
  exact hchain (List.length_eq_zero_iff.mp hzero)

/-- A connection that goes on, or for which the user does not answer to remember it. -/
theorem getHttpc_of_not_remember (h : answer ≠ .remember ∨ AllIgnored s conn) :
    (s.getHttpc conn answer).1 = s.collect conn ∧ (s.getHttpc conn answer).2 ≠ .remembered ∧
      ((s.getHttpc conn answer).2 = .unasked ↔ AllIgnored s conn) := by
  have hcount := errcount_pos_iff (collect_spec s conn).1
  unfold Client.getHttpc
  dsimp only
  by_cases hall : AllIgnored s conn
  · rw [if_neg (fun hpos => hcount.mp hpos hall)]
    exact ⟨rfl, nofun, iff_of_true rfl hall⟩
  · rw [if_pos (hcount.mpr hall)]
    cases answer with
    | reject => exact ⟨rfl, nofun, iff_of_false nofun hall⟩
    | once => exact ⟨rfl, nofun, iff_of_false nofun hall⟩
    | remember =>
      rcases h with h | h
      · exact absurd rfl h
      · exact absurd h hall

theorem getHttpc_remember (h : ¬AllIgnored s conn) :
    s.getHttpc conn .remember = (s.collect conn).acceptAll conn.writable
      ((s.collect conn).certInfo.map (·.getD ⟨[], none⟩)) := by
  have hcount := errcount_pos_iff (collect_spec s conn).1
  unfold Client.getHttpc
  dsimp only
  rw [if_pos (hcount.mpr h)]

end Leaves

section Stores

variable {s : Client} {conn : Connection} {answer : Answer} {f : Fingerprint} {errNo : ℕ}

/-- The user is asked and answers to remember the chain, and the file is written. -/
structure Accepts (s : Client) (conn : Connection) (answer : Answer) : Prop where
  remember : answer = .remember
  asked : ¬AllIgnored s conn
  chain : conn.chain ≠ []
  writable : conn.writable = true

theorem file_getHttpc_kept (h : ¬Accepts s conn answer) :
    (s.getHttpc conn answer).1.file = s.file := by
  obtain ⟨hcollected, hsynced, -⟩ := collect_spec s conn
  by_cases hnot : answer ≠ .remember ∨ AllIgnored s conn
  · rw [(getHttpc_of_not_remember hnot).1]
    exact hcollected.stored
  · obtain ⟨hanswer, hasked⟩ := not_or.mp hnot
    cases not_ne_iff.mp hanswer
    rw [getHttpc_remember hasked]
    by_cases hchain : conn.chain = []
    · rw [acceptAll_nameless, hcollected.stored]
      intro info hmem
      obtain ⟨depth, -, rfl⟩ := mem_infos hmem
      rw [hsynced depth, hchain]
      rfl
    · rw [acceptAll_file (named_infos hchain), if_neg, hcollected.stored]
      exact fun hwritten => h ⟨rfl, hasked, hchain, hwritten.2⟩

theorem file_getHttpc_accepts (h : Accepts s conn answer) :
    (s.getHttpc conn answer).1.file = some ((s.collect conn).acceptAll conn.writable
      ((s.collect conn).certInfo.map (·.getD ⟨[], none⟩))).1.acceptedCerts := by
  cases h.remember
  rw [getHttpc_remember h.asked, acceptAll_file (named_infos h.chain),
    if_pos ⟨infos_ne_nil h.chain, h.writable⟩]

theorem accepted_getHttpc_other {text : Text}
    (h : ∀ depth, depth < conn.chain.length → fingerprintAt conn.chain depth ≠ text) :
    isAccepted (contents (s.getHttpc conn answer).1.file) sha256 text errNo =
      isAccepted (contents s.file) sha256 text errNo := by
  by_cases haccepts : Accepts s conn answer
  · obtain ⟨hcollected, hsynced, hlength⟩ := collect_spec s conn
    rw [file_getHttpc_accepts haccepts]
    unfold isAccepted
    change (match (((s.collect conn).acceptAll conn.writable _).1.acceptedCerts
      (certKey sha256 text)) with
      | some cert => cert.errors.any (· = errNo)
      | none => false) = _
    rw [acceptAll_others (named_infos haccepts.chain), hcollected.accepted]
    intro info hmem
    obtain ⟨depth, hlt, rfl⟩ := mem_infos hmem
    rw [sha256_of_certificate (hsynced depth)]
    exact h depth (hlength haccepts.chain ▸ hlt)
  · rw [file_getHttpc_kept haccepts]

theorem stored_getHttpc_other (h : ∀ depth, ¬conn.HasAt depth f) :
    Stored (s.getHttpc conn answer).1 f errNo ↔ Stored s f errNo := by
  unfold Stored
  rw [accepted_getHttpc_other fun depth _ hsame => h depth (fingerprintAt_eq_iff.mp hsame)]

theorem recordsAt_iff {depth : ℕ} : conn.RecordsAt depth errNo ↔
    ∃ error ∈ ((s.collect conn).infoAt depth).errors, error.errNo = errNo := by
  rw [(collect_spec s conn).1.errors depth]
  constructor
  · rintro ⟨record, hmem, hdepth, herr⟩
    exact ⟨record.error, List.mem_map.mpr ⟨record,
      List.mem_filter.mpr ⟨hmem, decide_eq_true hdepth⟩, rfl⟩, herr⟩
  · rintro ⟨error, hmem, herr⟩
    obtain ⟨record, hrecord, rfl⟩ := List.mem_map.mp hmem
    obtain ⟨hrecord, hdepth⟩ := List.mem_filter.mp hrecord
    exact ⟨record, hrecord, of_decide_eq_true hdepth, herr⟩

theorem stored_getHttpc_last (h : Accepts s conn answer) {depth : ℕ}
    (hlast : conn.LastAt depth f) :
    Stored (s.getHttpc conn answer).1 f errNo ↔ conn.RecordsAt depth errNo := by
  obtain ⟨-, hsynced, hlength⟩ := collect_spec s conn
  obtain ⟨hhas, hdeeper⟩ := hlast
  have hsha : ∀ depth, ((s.collect conn).infoAt depth).sha256 = fingerprintAt conn.chain depth :=
    fun depth => sha256_of_certificate (hsynced depth)
  have hstored : ((s.collect conn).acceptAll conn.writable
      ((s.collect conn).certInfo.map (·.getD ⟨[], none⟩))).1.acceptedCerts
        (certKey sha256 f.text) = some ((s.collect conn).infoAt depth).toAccepted := by
    refine acceptAll_last (named_infos h.chain)
      (getElem?_infos _ (hlength h.chain ▸ hasAt_lt hhas))
      ((hsha depth).trans (fingerprintAt_eq_iff.mpr hhas)) ?_
    intro deeper hlt other hother hsame
    rw [(eq_infoAt hother).2, hsha deeper] at hsame
    exact hdeeper deeper hlt (fingerprintAt_eq_iff.mp hsame)
  unfold Stored
  rw [file_getHttpc_accepts h]
  unfold isAccepted
  change (match (((s.collect conn).acceptAll conn.writable _).1.acceptedCerts
    (certKey sha256 f.text)) with
    | some cert => cert.errors.any (· = errNo)
    | none => false) = true ↔ _
  rw [hstored, recordsAt_iff (s := s)]
  simp [CertInfo.toAccepted]

end Stores

section Logs

variable {log : Log} {f : Fingerprint} {errNo : ℕ}

theorem remembered_snoc {entry : Event × Outcome} :
    Remembered (log ++ [entry]) f errNo ↔
      (∃ conn answer, entry = (.connect conn answer, .remembered) ∧ conn.Records f errNo) ∨
        Remembered log f errNo ∧ ¬Deletes f entry := by
  constructor
  · rintro ⟨before, conn, answer, after, hlog, hrecords, hkept⟩
    rcases List.eq_nil_or_concat after with rfl | ⟨more, last, rfl⟩
    · obtain ⟨-, hentry⟩ := List.append_inj' hlog rfl
      exact .inl ⟨conn, answer, (List.cons.inj hentry).1, hrecords⟩
    · rw [List.concat_eq_append] at hlog hkept
      have hsplit : log ++ [entry] =
          (before ++ (.connect conn answer, .remembered) :: more) ++ [last] := by
        rw [hlog, List.append_assoc]
        rfl
      obtain ⟨hrest, hentry⟩ := List.append_inj' hsplit rfl
      cases hentry
      exact .inr ⟨⟨before, conn, answer, more, hrest, hrecords, fun other hmem =>
        hkept other (List.mem_append_left _ hmem)⟩,
        hkept entry (List.mem_append_right _ (List.mem_singleton_self _))⟩
  · rintro (⟨conn, answer, rfl, hrecords⟩ | ⟨⟨before, conn, answer, after, rfl, hrecords, hkept⟩,
      hnot⟩)
    · exact ⟨log, conn, answer, [], rfl, hrecords, nofun⟩
    · refine ⟨before, conn, answer, after ++ [entry], by simp, hrecords, fun other hmem => ?_⟩
      rcases List.mem_append.mp hmem with hmem | hmem
      · exact hkept other hmem
      · rwa [List.mem_singleton.mp hmem]

theorem remembered_connect {conn : Connection} {answer : Answer} {outcome : Outcome} :
    Remembered (log ++ [(.connect conn answer, outcome)]) f errNo ↔
      outcome = .remembered ∧ conn.Records f errNo ∨ Remembered log f errNo := by
  rw [remembered_snoc, and_iff_left (show ¬Deletes f (.connect conn answer, outcome) from id)]
  refine or_congr_left ⟨?_, ?_⟩
  · rintro ⟨conn, answer, hentry, hrecords⟩
    cases hentry
    exact ⟨rfl, hrecords⟩
  · rintro ⟨rfl, hrecords⟩
    exact ⟨conn, answer, rfl, hrecords⟩

/-- An entry that neither remembers nor deletes anything. -/
theorem remembered_other {event : Event} {outcome : Outcome}
    (hconnect : ∀ conn answer, event ≠ .connect conn answer)
    (hdelete : ¬Deletes f (event, outcome)) :
    Remembered (log ++ [(event, outcome)]) f errNo ↔ Remembered log f errNo := by
  rw [remembered_snoc, and_iff_left hdelete]
  refine or_iff_right ?_
  rintro ⟨conn, answer, hentry, -⟩
  exact hconnect conn answer (Prod.mk.inj hentry).1

end Logs

section Agreement

/-- The file says what has been remembered. -/
def Agrees (s : Client) (log : Log) : Prop :=
  ∀ f errNo, Stored s f errNo ↔ Remembered log f errNo

/-- Nothing is accepted where there is no certificate. -/
def Unnamed (s : Client) : Prop :=
  ∀ errNo, isAccepted (contents s.file) sha256 [] errNo = false

theorem fingerprintAt_ne_nil {chain : List Certificate} {depth : ℕ}
    (h : depth < chain.length) : fingerprintAt chain depth ≠ [] := by
  unfold fingerprintAt
  rw [List.getElem?_eq_getElem h]
  intro hnil
  have hprinted := (chain[depth]).sha256.printed
  rw [show (chain[depth]).sha256.text = [] from hnil] at hprinted
  cases hprinted

theorem unnamed_run (events : List Event) : Unnamed (run events).1 := by
  induction events using List.reverseRecOn with
  | nil => exact fun errNo => rfl
  | append_singleton events event ih =>
    rw [run_snoc]
    cases event with
    | connectPlain => exact ih
    | connectFails => exact ih
    | delete algo fingerprint => exact ih
    | connect conn answer =>
      intro errNo
      exact (accepted_getHttpc_other fun depth hdepth => fingerprintAt_ne_nil hdepth).trans
        (ih errNo)

variable {s : Client} {log : Log} {conn : Connection}

theorem allIgnored_iff (hagrees : Agrees s log) (hunnamed : Unnamed s) :
    AllIgnored s conn ↔ AllRemembered log conn := by
  constructor
  · rintro hall depth errNo ⟨record, hmem, rfl, rfl⟩
    have hignored := hall record hmem
    unfold Recorded.Ignored at hignored
    by_cases hdepth : record.depth < conn.chain.length
    · obtain ⟨f, hhas⟩ := exists_hasAt hdepth
      rw [fingerprintAt_eq_iff.mpr hhas] at hignored
      exact ⟨f, hhas, (hagrees f _).mp hignored⟩
    · have hnone : fingerprintAt conn.chain record.depth = [] := by
        unfold fingerprintAt
        rw [List.getElem?_eq_none (Nat.le_of_not_lt hdepth)]
        rfl
      rw [hnone, hunnamed] at hignored
      cases hignored
  · intro hall record hmem
    obtain ⟨f, hhas, hremembered⟩ := hall _ _ ⟨record, hmem, rfl, rfl⟩
    unfold Recorded.Ignored
    rw [fingerprintAt_eq_iff.mpr hhas]
    exact (hagrees _ _).mpr hremembered

/-- The errors of a chain with certificates are those of its depths. -/
theorem recordsAt_lt (hchain : conn.chain ≠ []) {depth errNo : ℕ}
    (h : conn.RecordsAt depth errNo) : depth < conn.chain.length := by
  obtain ⟨-, -, hlength⟩ := collect_spec start conn
  obtain ⟨error, hmem, -⟩ := (recordsAt_iff (s := start)).mp h
  by_contra hbeyond
  unfold Client.infoAt entry at hmem
  rw [List.getElem?_eq_none (hlength hchain ▸ Nat.le_of_not_lt hbeyond)] at hmem
  cases hmem

end Agreement

section Steps

variable {s : Client} {log : Log} {conn : Connection} {answer : Answer}

theorem outcome_of_accepts (h : Accepts s conn answer) :
    (s.getHttpc conn answer).2 = .remembered := by
  cases h.remember
  rw [getHttpc_remember h.asked]
  exact acceptAll_outcome (named_infos h.chain)

theorem acceptAll_ne_unasked (writable : Bool) (infos : List CertInfo) :
    (s.acceptAll writable infos).2 ≠ .unasked := by
  induction infos generalizing s with
  | nil => exact nofun
  | cons info infos ih =>
    unfold Client.acceptAll
    split
    · exact ih
    · exact nofun

theorem getHttpc_unasked_iff : (s.getHttpc conn answer).2 = .unasked ↔ AllIgnored s conn := by
  by_cases h : answer ≠ .remember ∨ AllIgnored s conn
  · exact (getHttpc_of_not_remember h).2.2
  · obtain ⟨hanswer, hasked⟩ := not_or.mp h
    cases not_ne_iff.mp hanswer
    rw [getHttpc_remember hasked]
    exact iff_of_false (acceptAll_ne_unasked _ _) hasked

/-- A connection whose chain is stored keeps file and log alike if and only if the deepest place
of each certificate has all that is remembered for it. -/
theorem agrees_accepts_iff (h : Accepts s conn answer) (hagrees : Agrees s log) :
    Agrees (s.getHttpc conn answer).1 (log ++ [(.connect conn answer, .remembered)]) ↔
      ∀ depth f, conn.LastAt depth f → ∀ errNo,
        Remembered log f errNo ∨ conn.Records f errNo → conn.RecordsAt depth errNo := by
  unfold Agrees
  simp only [remembered_connect, true_and]
  constructor
  · intro hafter depth f hlast errNo hought
    exact (stored_getHttpc_last h hlast).mp ((hafter f errNo).mpr hought.symm)
  · intro hholds f errNo
    by_cases hin : ∃ depth, conn.HasAt depth f
    · obtain ⟨depth, hhas⟩ := hin
      obtain ⟨last, hlast⟩ := exists_lastAt hhas
      rw [stored_getHttpc_last h hlast]
      exact ⟨fun hrecords => .inl ⟨last, hlast.1, hrecords⟩,
        fun hought => hholds last f hlast errNo hought.symm⟩
    · have hnot : ∀ depth, ¬conn.HasAt depth f := fun depth hhas => hin ⟨depth, hhas⟩
      rw [stored_getHttpc_other hnot, hagrees]
      refine (or_iff_right ?_).symm
      rintro ⟨depth, hhas, -⟩
      exact hnot depth hhas

/-- A connection that leaves the file alone keeps file and log alike if and only if nothing new
is remembered. -/
theorem agrees_kept_iff (h : ¬Accepts s conn answer) (hagrees : Agrees s log)
    {outcome : Outcome} :
    Agrees (s.getHttpc conn answer).1 (log ++ [(.connect conn answer, outcome)]) ↔
      (outcome = .remembered → ∀ f errNo, conn.Records f errNo → Remembered log f errNo) := by
  unfold Agrees Stored
  rw [file_getHttpc_kept h]
  simp only [remembered_connect]
  constructor
  · intro hafter hremembered f errNo hrecords
    exact (hagrees f errNo).mp ((hafter f errNo).mpr (.inl ⟨hremembered, hrecords⟩))
  · intro hold f errNo
    refine (hagrees f errNo).trans ⟨.inr, ?_⟩
    rintro (⟨hremembered, hrecords⟩ | hremembered)
    · exact hold hremembered f errNo hrecords
    · exact hremembered

theorem agrees_connect_iff (hagrees : Agrees s log) (hunnamed : Unnamed s) :
    Agrees (s.getHttpc conn answer).1
      (log ++ [(.connect conn answer, (s.getHttpc conn answer).2)]) ↔
        Clean log (.connect conn answer) := by
  have hignored : AllIgnored s conn ↔ AllRemembered log conn := allIgnored_iff hagrees hunnamed
  by_cases haccepts : Accepts s conn answer
  · rw [outcome_of_accepts haccepts, agrees_accepts_iff haccepts hagrees]
    cases haccepts.remember
    refine ⟨fun hholds _ => ⟨fun _ => haccepts.writable, hholds⟩, fun hclean => ?_⟩
    exact (hclean fun hall => haccepts.asked (hignored.mpr hall)).2
  · rw [agrees_kept_iff haccepts hagrees]
    by_cases hnot : answer ≠ .remember ∨ AllIgnored s conn
    · refine iff_of_true (fun hout => ?_) ?_
      · exact absurd hout (getHttpc_of_not_remember hnot).2.1
      · cases answer with
        | reject => trivial
        | once => trivial
        | remember =>
          intro hasked
          rcases hnot with hne | hall
          · exact absurd rfl hne
          · exact absurd (hignored.mp hall) hasked
    · obtain ⟨hanswer, hasked⟩ := not_or.mp hnot
      cases not_ne_iff.mp hanswer
      by_cases hchain : conn.chain = []
      · have hnone : ∀ depth f, ¬conn.HasAt depth f := fun depth f hhas => by
          have hlt := hasAt_lt hhas
          rw [hchain] at hlt
          cases hlt
        refine iff_of_true ?_ fun _ => ⟨fun hne => absurd hchain hne, ?_⟩
        · rintro - f errNo ⟨depth, hhas, -⟩
          exact absurd hhas (hnone depth f)
        · intro depth f hlast
          exact absurd hlast.1 (hnone depth f)
      · have hunwritable : conn.writable ≠ true :=
          fun hwritable => haccepts ⟨rfl, hasked, hchain, hwritable⟩
        have hout : (s.getHttpc conn .remember).2 = .remembered := by
          rw [getHttpc_remember hasked]
          exact acceptAll_outcome (named_infos hchain)
        refine iff_of_false (fun hold => hasked (hignored.mpr ?_)) fun hclean => ?_
        · intro depth errNo hrecords
          obtain ⟨f, hhas⟩ := exists_hasAt (recordsAt_lt hchain hrecords)
          exact ⟨f, hhas, hold hout f errNo ⟨depth, hhas, hrecords⟩⟩
        · exact hunwritable ((hclean fun hall => hasked (hignored.mpr hall)).1 hchain)

theorem agrees_delete_iff (hagrees : Agrees s log) {algo fingerprint : Text} :
    Agrees (s.deleteException algo fingerprint)
      (log ++ [(.delete algo fingerprint, .deleted)]) ↔
        Clean log (.delete algo fingerprint) := by
  have hsnoc : ∀ f errNo,
      Remembered (log ++ [(.delete algo fingerprint, .deleted)]) f errNo ↔
        Remembered log f errNo ∧ ¬(algo = sha256 ∧ fingerprint = f.text) := by
    intro f errNo
    rw [remembered_snoc]
    refine or_iff_right ?_
    rintro ⟨conn, answer, hentry, -⟩
    cases hentry
  constructor
  · rintro hafter rfl f rfl errNo hremembered
    exact ((hsnoc f errNo).mp ((hafter f errNo).mp ((hagrees f errNo).mpr hremembered))).2
      ⟨rfl, rfl⟩
  · intro hclean f errNo
    refine (hagrees f errNo).trans ⟨fun hremembered => (hsnoc f errNo).mpr ⟨hremembered, ?_⟩,
      fun hremembered => ((hsnoc f errNo).mp hremembered).1⟩
    rintro ⟨halgo, hsame⟩
    exact hclean halgo f hsame errNo hremembered

/-- An event keeps file and log alike exactly if it is clean. -/
theorem agrees_snoc_iff {events : List Event} (h : Agrees (run events).1 (run events).2)
    (event : Event) : Agrees (run (events ++ [event])).1 (run (events ++ [event])).2 ↔
      Clean (run events).2 event := by
  rw [run_snoc]
  cases event with
  | connectPlain =>
    refine iff_of_true (fun f errNo => (h f errNo).trans ?_) trivial
    exact (remembered_other (fun _ _ hevent => by cases hevent) id).symm
  | connectFails =>
    refine iff_of_true (fun f errNo => (h f errNo).trans ?_) trivial
    exact (remembered_other (fun _ _ hevent => by cases hevent) id).symm
  | connect conn answer => exact agrees_connect_iff h (unnamed_run events)
  | delete algo fingerprint => exact agrees_delete_iff h

end Steps

section Runs

/-- A connection with one certificate and one error. -/
def probe (f : Fingerprint) (errNo : ℕ) : Connection where
  chain := [⟨f, [], 2048, []⟩]
  calls := [⟨⟨0, Nat.one_pos⟩, false, ⟨errNo, 0, []⟩⟩]
  reported depth := ⟨_, List.mem_singleton_self _, Fin.ext (Nat.lt_one_iff.mp depth.isLt).symm⟩
  hostnameError := none
  ocspErrors := none
  writable := true

variable {f : Fingerprint} {errNo : ℕ}

theorem probe_recordsAt {depth other : ℕ} :
    (probe f errNo).RecordsAt depth other ↔ depth = 0 ∧ other = errNo := by
  have hrecords : (probe f errNo).records = [⟨0, ⟨errNo, 0, []⟩⟩] := rfl
  unfold Connection.RecordsAt
  rw [hrecords]
  simp [eq_comm]

theorem probe_hasAt {g : Fingerprint} : (probe f errNo).HasAt 0 g ↔ g = f := by
  unfold Connection.HasAt probe
  simp [eq_comm]

theorem probe_allRemembered {log : Log} :
    AllRemembered log (probe f errNo) ↔ Remembered log f errNo := by
  constructor
  · intro hall
    obtain ⟨g, hhas, hremembered⟩ := hall 0 errNo (probe_recordsAt.mpr ⟨rfl, rfl⟩)
    rwa [probe_hasAt.mp hhas] at hremembered
  · intro hremembered depth other hrecords
    obtain ⟨rfl, rfl⟩ := probe_recordsAt.mp hrecords
    exact ⟨f, probe_hasAt.mpr rfl, hremembered⟩

theorem probe_allIgnored {s : Client} :
    AllIgnored s (probe f errNo) ↔ Stored s f errNo := by
  have hrecords : (probe f errNo).records = [⟨0, ⟨errNo, 0, []⟩⟩] := rfl
  unfold AllIgnored
  rw [hrecords, List.forall_mem_singleton]
  exact Iff.rfl

theorem agrees_of_exact {events : List Event} (h : Exact events) :
    Agrees (run events).1 (run events).2 := by
  intro f errNo
  rw [← probe_allIgnored, ← probe_allRemembered, ← h.asks (probe f errNo) .reject]
  exact getHttpc_unasked_iff.symm

theorem exact_of_agrees {events : List Event} (h : Agrees (run events).1 (run events).2) :
    Exact events where
  asks conn answer := getHttpc_unasked_iff.trans (allIgnored_iff h (unnamed_run events))
  others conn answer f hnot errNo := stored_getHttpc_other hnot
  adds conn answer f errNo hstored := by
    by_cases haccepts : Accepts (run events).1 conn answer
    · by_cases hin : ∃ depth, conn.HasAt depth f
      · obtain ⟨depth, hhas⟩ := hin
        obtain ⟨last, hlast⟩ := exists_lastAt hhas
        exact .inr ⟨last, hlast.1, (stored_getHttpc_last haccepts hlast).mp hstored⟩
      · exact .inl ((stored_getHttpc_other fun depth hhas => hin ⟨depth, hhas⟩).mp hstored)
    · unfold Stored at hstored
      rw [file_getHttpc_kept haccepts] at hstored
      exact .inl hstored

theorem agrees_start : Agrees (run []).1 (run []).2 := by
  intro f errNo
  refine iff_of_false Bool.false_ne_true ?_
  rintro ⟨before, conn, answer, after, hlog, -⟩
  exact List.append_ne_nil_of_right_ne_nil before (List.cons_ne_nil _ after) hlog.symm

/-- Exceptions mean what has been remembered throughout a run exactly if each of its events is
clean. -/
theorem exact_iff (events : List Event) :
    (∀ before, before <+: events → Exact before) ↔
      ∀ before event, before ++ [event] <+: events → Clean (run before).2 event := by
  constructor
  · intro hexact before event hprefix
    have hbefore := hexact before ((List.prefix_append before [event]).trans hprefix)
    exact (agrees_snoc_iff (agrees_of_exact hbefore) event).mp
      (agrees_of_exact (hexact _ hprefix))
  · intro hclean before hprefix
    refine exact_of_agrees ?_
    induction before using List.reverseRecOn with
    | nil => exact agrees_start
    | append_singleton before event ih =>
      have hbefore := ih ((List.prefix_append before [event]).trans hprefix)
      exact (agrees_snoc_iff hbefore event).mpr (hclean before event hprefix)

/-- The fingerprint of the examples. -/
def zeros : Fingerprint := ⟨List.replicate 95 '0', rfl⟩

/-- A self-signed certificate is remembered; then the same certificate has expired, and that is
remembered: the first error is asked about again. What is deleted is accepted all the same. -/
theorem remembered_then_asked :
    ¬Exact [.connect (probe zeros 18) .remember, .connect (probe zeros 10) .remember] ∧
      ¬Exact [.connect (probe zeros 18) .remember, .delete sha256 zeros.text] := by
  constructor
  · intro hexact
    have hstored := (agrees_of_exact hexact zeros 18).mpr
      ⟨[], probe zeros 18, .remember, [(.connect (probe zeros 10) .remember, .remembered)], rfl,
        ⟨0, probe_hasAt.mpr rfl, probe_recordsAt.mpr ⟨rfl, rfl⟩⟩, by simp [Deletes]⟩
    revert hstored
    unfold Stored
    decide +kernel
  · intro hexact
    have hremembered := (agrees_of_exact hexact zeros 18).mp (by unfold Stored; decide +kernel)
    obtain ⟨before, conn, answer, after, hlog, -, hkept⟩ := hremembered
    cases before with
    | nil =>
      have hafter := (List.cons.inj hlog).2
      exact hkept (.delete sha256 zeros.text, .deleted) (hafter ▸ List.mem_singleton_self _)
        ⟨rfl, rfl⟩
    | cons first before =>
      have hrest := (List.cons.inj hlog).2
      cases before with
      | nil => cases (List.cons.inj hrest).1
      | cons second before =>
        exact List.append_ne_nil_of_right_ne_nil before (List.cons_ne_nil _ after)
          (List.cons.inj hrest).2.symm

end Runs

end Qvd.CertExceptions
