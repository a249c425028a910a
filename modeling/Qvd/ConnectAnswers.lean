import Qvd.ResponseReads

/-!
The answer to a request for a machine's session. The server tells how far it has come in
responses of their own, and it ends with the protocol switch or with an error; the client reads
responses until one of them is an end. Behind the switch the bytes are those of the session.
-/
namespace Qvd.ConnectAnswers

open LineText HttpHeads HttpResponses HttpcReads ResponseReads

/-! ### The server -/

section Server

/-- `$vm->id` in a message. -/
def idText (vm : ℕ) : Text := Nat.toDigits 10 vm

/-- `_tell_client`. -/
def tellClient (message : Text) : Text :=
  sendHttpResponse 102 ["X-QVD-VM-Info: ".toList ++ message]

/-- The descriptions of the codes that are sent without a text of their own. -/
def httpStatusDescription (code : ℕ) : Text :=
  if code = 401 then
    "401 Unauthorized\n    Similar to 403 Forbidden, but specifically for use when\n".toList ++
      "    authentication is possible but has failed or not yet been\n".toList ++
      "    provided. The response must include a WWW-Authenticate header\n".toList ++
      "    field containing a challenge applicable to the requested\n".toList ++
      "    resource. See Basic access authentication and Digest access\n".toList ++
      "    authentication.\n".toList
  else if code = 404 then
    "404 Not Found\n    The requested resource could not be found but may be available\n".toList ++
      "    again in the future. Subsequent requests by the client are\n".toList ++
      "    permissible.\n".toList
  else if code = 426 then
    "426 Upgrade Required (RFC 2817 )\n".toList ++
      "    The client should switch to some specific protocol.\n".toList
  else Nat.toDigits 10 code ++ " Unknown status code".toList

/-- What `generate_slave_key` may return. -/
structure SlaveKey where
  key : Text
  length : key.length = 64
  alpha : ∀ c ∈ key, c.isAlphanum = true

/-- The ways in which `connect_to_vm_processor` turns a request down. -/
inductive Refusal where
  | hostNotRegistered
  | unauthorized
  | serverBlocked
  | upgradeRequired
  | otherMachine
  | missingId
  | invalidParameters (names : List Text)
  | machineNotFound
  | machineOffline
  | unavailable (err : Text)
  | died (err : Text)

/-- The code, the headers and the text of the error response. The error thrown inside of the
transaction is thrown again as if it were a text, and it is taken for the headers. -/
def Refusal.error : Refusal → ℕ × List Text × Text
  | hostNotRegistered => (503, [], "Host is not registered in the database".toList)
  | unauthorized =>
    (401, ["WWW-Authenticate: Basic realm=\"QVD\"".toList], httpStatusDescription 401)
  | serverBlocked => (503, [], "Server is blocked".toList)
  | upgradeRequired => (426, [], httpStatusDescription 426)
  | otherMachine => (403, [], "vm_id does not match with provided token".toList)
  | missingId => (422, [], "parameter id is missing".toList)
  | invalidParameters names =>
    (403, [], "Invalid parameters ".toList ++ [' '].intercalate names)
  | machineNotFound =>
    (404, ["404 Not Found".toList, "The requested virtual machine does not exist".toList],
      httpStatusDescription 404)
  | machineOffline =>
    (404, ["403 Forbidden".toList,
      "The requested virtual machine is offline for maintenance".toList],
      httpStatusDescription 404)
  | unavailable err =>
    (503, [], "The requested virtual machine is not available: ".toList ++ err ++
      ", retry later.".toList)
  | died err => (500, [], err)

/-- `send_http_error`. -/
def sendHttpError (refusal : Refusal) : Text :=
  sendHttpResponseWithBody refusal.error.1 "text/plain".toList refusal.error.2.1
    refusal.error.2.2

/-- Where the processor is once the request has been accepted. -/
inductive Stage where
  | takeover | assign | start | wait | startX | waitX | forward
  deriving DecidableEq

/-- How a stage ends. -/
inductive After where
  | at (stage : Stage)
  | refused (refusal : Refusal)
  | forwarding

/-- A turn of a stage, with what the client is told in it. Any statement may die, before and after
the client has been told. -/
inductive Step (vm : ℕ) : Stage → List Text → After → Prop
  | contended : Step vm .takeover
      ["Aborting contending session for VM_ID: ".toList ++ idText vm] (.at .takeover)
  | acquired : Step vm .takeover
      ["Session acquired for VM_ID: ".toList ++ idText vm] (.at .assign)
  | assigned : Step vm .assign [] (.at .start)
  | assign : Step vm .assign
      ["Assigning VM ".toList ++ idText vm ++ " to host".toList] (.at .start)
  | started : Step vm .start [] (.at .wait)
  | start : Step vm .start ["Starting virtual machine".toList] (.at .wait)
  | poll : Step vm .wait ["Waiting for VM to reach state 'running'".toList] (.at .wait)
  | running : Step vm .wait [] (.at .startX)
  | startX : Step vm .startX
      ["Starting X session at VM ".toList ++ idText vm] (.at .waitX)
  | waitX : Step vm .waitX
      ["Waiting for X session to come up on VM ".toList ++ idText vm] (.at .forward)
  | forward : Step vm .forward
      ["Connecting X session for VM_ID: ".toList ++ idText vm, "Connection established".toList]
      .forwarding
  | dies {stage : Stage} {said told : List Text} {after : After} (err : Text) :
      Step vm stage told after → said <+: told → Step vm stage said (.refused (.unavailable err))

/-- The turns of an accepted request. -/
inductive Run (vm : ℕ) : Stage → List Text → After → Prop
  | start (stage : Stage) : Run vm stage [] (.at stage)
  | turn {stage stage' : Stage} {said told : List Text} {after : After} :
      Step vm stage told (.at stage') → Run vm stage' said after → Run vm stage (told ++ said) after
  | ends {stage : Stage} {told : List Text} {after : After} :
      Step vm stage told after → Run vm stage told after

/-- `connect_to_vm_processor`: a request is refused, or its machine is taken over. -/
inductive Served (vm : ℕ) : List Text → After → Prop
  | refused (refusal : Refusal) : Served vm [] (.refused refusal)
  | accepted {said : List Text} {after : After} : Run vm .takeover said after → Served vm said after

/-- What has been written to the client. -/
def written (slaveKey : SlaveKey) (said : List Text) (after : After) : Text :=
  said.flatMap tellClient ++ match after with
    | .at _ => []
    | .refused refusal => sendHttpError refusal
    | .forwarding => sendHttpResponse 101 ["X-QVD-Slave-Key: ".toList ++ slaveKey.key]

end Server

/-! ### The client -/

section Client

/-- How the loop of `connect_to_vm` ends: with the session, or with the message and the code that
`proxy_connection_error` is given. -/
inductive Outcome where
  | connected (slaveKey : Option Text)
  | failed (message : Text) (code : ℕ)
  deriving DecidableEq

/-- The message for a code, which is compared as a number and printed as a text. -/
def fatalMessage (number : ℕ) (code msg body : Text) : Text :=
  if number = 404 then "Your virtual machine does not exist any more".toList
  else if number = 426 then "The server requires a more up-to-date client version".toList
  else if number = 401 then "Login error. Please verify your user and password".toList
  else if number = 502 then "Server error: ".toList ++ body
  else if number = 403 then "Your virtual machine is under maintenance.".toList
  else "Unable to connect to remote VM: ".toList ++ code ++ ' ' :: (msg ++ '\n' :: '\n' :: body)

/-- A response; `none` where the client waits for the next one. -/
def answer (head : ResponseHead) (body : Option Text) : Option Outcome :=
  if number head.code = 101 then
    some (.connected (headerLookup head.headers "X-QVD-Slave-Key".toList))
  else if number head.code = 102 then none
  else
    some (.failed (fatalMessage (number head.code) head.code (head.message.getD []) (body.getD []))
      (number head.code))

/-- The codes the client itself returns, which are numbers and texts at once. -/
def ownCode : HeadError → ℕ
  | .badResponse => 652
  | .versionNotSupportedByClient => 651
  | .closed => 0

def badAnswer (e : HeadError) : Outcome :=
  .failed (fatalMessage (ownCode e)
    (Nat.toDigits 10 (ownCode e) ++ ' ' :: httpStatusMessage (ownCode e)) [] []) (ownCode e)

/-- The loop over the responses. -/
def connectLoop (ssl : Bool) (c : Client) (ts : List Turn) : Reply Outcome :=
  match _h : ResponseReads.readHttpResponse ssl c ts with
  | .value (.ok (head, body)) c ts =>
    match answer head body with
    | some outcome => .value outcome c ts
    | none => connectLoop ssl c ts
  | .value (.error e) c ts => .value (badAnswer e) c ts
  | .died d t c => .died d t c
  | .waiting c => .waiting c
termination_by c.bin.length + c.stream.length
decreasing_by exact length_of_readHttpResponse ssl (by assumption)

/-- What the loop makes of a text. -/
def answers : Reader Outcome := fun s =>
  match _h : response s with
  | .ok ((head, body), rest) =>
    match answer head body with
    | some outcome => .ok (outcome, rest)
    | none => answers rest
  | .error e => .error e
termination_by s => s.length
decreasing_by exact length_of_response (by assumption)

/-- The loop has made of the bytes what is in them. -/
def Answered (outcome : Outcome) (received left : List Byte) : Prop :=
  answers (text received) = .ok (outcome, text left) ∨
    ∃ e, e ≠ .closed ∧ answers (text received) = .error e ∧ outcome = badAnswer e

end Client

/-! ### The loop as a reader -/

section Loop

theorem answers_of_ok {s rest : Text} {head : ResponseHead} {body : Option Text}
    (h : response s = .ok ((head, body), rest)) :
    answers s = match answer head body with
      | some outcome => .ok (outcome, rest)
      | none => answers rest := by
  rw [answers]
  split
  · next heq =>
    cases h.symm.trans heq
    rfl
  · next heq => cases h.symm.trans heq

theorem answers_of_error {s : Text} {e : HeadError} (h : response s = .error e) :
    answers s = .error e := by
  rw [answers]
  split
  · next heq => cases h.symm.trans heq
  · next heq =>
    cases h.symm.trans heq
    rfl

theorem answers_grows : Grows answers := by
  intro s more hs
  fun_induction answers s with
  | case1 s head body rest hread outcome hanswer =>
    rw [answers_of_ok (response_grows.ok hread more), hanswer]
    rfl
  | case2 s head body rest hread hanswer ih =>
    rw [answers_of_ok (response_grows.ok hread more), hanswer]
    exact ih hs
  | case3 s e hread =>
    rw [answers_of_error (response_grows.error hread (fun he => hs (congrArg _ he)) more)]
    rfl

/-- The loop goes on behind a response that is not an end. -/
theorem answers_after {received left : List Byte} {head : ResponseHead} {body : Option Text}
    (h : Made response (.ok (head, body)) received left) (hanswer : answer head body = none)
    (more : List Byte) : answers (text (received ++ more)) = answers (text (left ++ more)) := by
  rw [text_append, answers_of_ok (response_grows.ok h (text more)), hanswer, text_append]

/-- The loop of `connect_to_vm`, however the bytes arrive. -/
theorem connectLoop_reads (ssl : Bool) (c : Client) (ts : List Turn) :
    Reads ssl c ts Answered (Lacking answers) (connectLoop ssl c ts) := by
  fun_induction connectLoop ssl c ts with
  | case1 c ts head body c' ts' hvalue outcome hanswer =>
    obtain ⟨extra, htakes, hmade⟩ := hvalue ▸ readHttpResponse_reads ssl c ts
    refine ⟨extra, htakes, .inl ?_⟩
    rw [answers_of_ok hmade, hanswer]
  | case2 c ts head body c' ts' hvalue hanswer ih =>
    obtain ⟨extra, htakes, hmade⟩ := hvalue ▸ readHttpResponse_reads ssl c ts
    refine Reads.after htakes rfl ih (fun outcome extra' left' h => ?_) fun extra' h => ?_
    · rwa [Answered, answers_after hmade hanswer]
    · rwa [Lacking, answers_after hmade hanswer]
  | case3 c ts e c' ts' hvalue =>
    obtain ⟨extra, htakes, herror, hne⟩ := hvalue ▸ readHttpResponse_reads ssl c ts
    exact ⟨extra, htakes, .inr ⟨e, hne, answers_of_error herror, rfl⟩⟩
  | case4 c ts d t c' hdied =>
    obtain ⟨extra, ts', htakes, hlacking, hreason⟩ := hdied ▸ readHttpResponse_reads ssl c ts
    exact ⟨extra, ts', htakes, answers_of_error hlacking, hreason⟩
  | case5 c ts c' hwaiting =>
    obtain ⟨extra, htakes, hlacking⟩ := hwaiting ▸ readHttpResponse_reads ssl c ts
    exact ⟨extra, htakes, answers_of_error hlacking⟩

end Loop

/-! ### What the server writes, read by the client -/

/-- The message for an answer without a message of its own. -/
def unable (status text : Text) : Text :=
  "Unable to connect to remote VM: ".toList ++ (status ++ '\n' :: '\n' :: text)

/-- What the user is told of a refusal. -/
def Refusal.outcome : Refusal → Outcome
  | hostNotRegistered =>
    .failed (unable "503 Service Unavailable".toList
      "Host is not registered in the database".toList) 503
  | unauthorized => .failed "Login error. Please verify your user and password".toList 401
  | serverBlocked =>
    .failed (unable "503 Service Unavailable".toList "Server is blocked".toList) 503
  | upgradeRequired => .failed "The server requires a more up-to-date client version".toList 426
  | otherMachine | invalidParameters _ =>
    .failed "Your virtual machine is under maintenance.".toList 403
  | missingId =>
    .failed (unable "422 Unprocessable Entity".toList "parameter id is missing".toList) 422
  | machineNotFound | machineOffline => .failed (unable "652 Bad Response ".toList []) 652
  | unavailable err =>
    .failed (unable "503 Service Unavailable".toList
      ("The requested virtual machine is not available: ".toList ++ err ++
        ", retry later.".toList)) 503
  | died err => .failed (unable "500 Internal Server Error".toList err) 500

/-- How the loop is to end; `none` where the server has not ended yet. -/
def After.outcome (slaveKey : SlaveKey) : After → Option Outcome
  | .at _ => none
  | .refused refusal => some refusal.outcome
  | .forwarding => some (.connected (some slaveKey.key))

/-- Where the server has ended, some of what it has written is still to come. -/
def Unfinished (slaveKey : SlaveKey) (after : After) (session : Text) (c : Client) : Prop :=
  after.outcome slaveKey ≠ none → ∃ unread ≠ [], text c.stream = unread ++ session

/-- How the client may stand when this has been written to it, and the session behind it. -/
def Understood (ssl : Bool) (slaveKey : SlaveKey) (said : List Text) (after : After)
    (session : Text) (ts : List Turn) : Reply Outcome → Prop
  | .value outcome c _ => after.outcome slaveKey = some outcome ∧
      (after = .forwarding → text (c.bin ++ c.stream) = session)
  | .died d t c => Unfinished slaveKey after session c ∧ (Justified d t c ∨ Stale ssl c t)
  | .waiting c => Unfinished slaveKey after session c ∧
      (after.outcome slaveKey ≠ none → arrivals ts < (written slaveKey said after).length)

section Conversations

variable {vm : ℕ} {said : List Text} {after : After} {rest : Text}

def infoHeader (message : Text) : Header :=
  ⟨"X-QVD-VM-Info".toList, message, by decide, List.all_eq_true.mp (by decide)⟩

def slaveKeyHeader (slaveKey : SlaveKey) : Header :=
  ⟨"X-QVD-Slave-Key".toList, slaveKey.key, by decide, List.all_eq_true.mp (by decide)⟩

/-- A response whose head reads back, and behind it whatever follows. -/
theorem response_of_plain (code : ℕ) {h : Header} (hplain : h.Plain)
    (hname : h.name ≠ "Content-Length".toList) (rest : Text) :
    response (sendHttpResponse code [h.text] ++ rest) =
      .ok ((⟨Nat.toDigits 10 code, some (httpStatusMessage code), [h.joined]⟩, none), rest) := by
  have hhead := (response_head_iff code [h] rest).mpr (List.forall_mem_singleton.mpr hplain)
  have hlength : contentLength ⟨Nat.toDigits 10 code, some (httpStatusMessage code), [h.joined]⟩ =
      none := by
    have hother : headerValue "Content-Length".toList h.joined = none :=
      headerValue_other (by decide) h.name_token hname
    simp only [contentLength, headerLookup, List.findSome?_cons, hother, List.findSome?_nil,
      Option.bind_none]
  rw [List.map_singleton, List.map_singleton] at hhead
  rw [response_eq, hhead]
  simp only [Except.bind, body, hlength]

theorem answers_tellClient {message : Text} (hmessage : '\n' ∉ message) (rest : Text) :
    answers (tellClient message ++ rest) = answers rest := by
  have hplain : (infoHeader message).Plain :=
    ⟨List.all_eq_true.mp (show "X-QVD-VM-Info".toList.all clientToken = true by decide),
      fun h => hmessage ((List.dropLast_sublist _).mem h)⟩
  have hresponse := response_of_plain 102 hplain
    (show "X-QVD-VM-Info".toList ≠ "Content-Length".toList by decide) rest
  rw [tellClient, show "X-QVD-VM-Info: ".toList ++ message = (infoHeader message).text from rfl,
    answers_of_ok hresponse]
  rfl

theorem alphanum_not_space {c : Char} (h : c.isAlphanum = true) : isSpace c = false :=
  not_space_of Char.isAlphanum (by decide) h

theorem SlaveKey.joined (slaveKey : SlaveKey) :
    headerValue "X-QVD-Slave-Key".toList (slaveKeyHeader slaveKey).joined = some slaveKey.key := by
  have hspace : ∀ c ∈ slaveKey.key, isSpace c = false :=
    fun c hc => alphanum_not_space (slaveKey.alpha c hc)
  have hline : '\n' ∉ slaveKey.key := fun hc => absurd (hspace _ hc) (by decide)
  have hne : slaveKey.key ≠ [] := fun hnil => absurd slaveKey.length (by rw [hnil]; decide)
  have htrim : trim slaveKey.key = slaveKey.key :=
    trim_eq_self (fun c hc => hspace c (List.mem_of_mem_head? hc))
      fun c hc => hspace c (List.mem_of_mem_getLast? hc)
  have hjoin : joinLines slaveKey.key = slaveKey.key := by
    rw [joinLines, lines_of_not_mem hline hne, List.map_singleton, htrim]
    simp
  have hleft : trimLeft slaveKey.key = slaveKey.key := by
    obtain ⟨c, key, hc⟩ := List.exists_cons_of_ne_nil hne
    rw [hc]
    exact trimLeft_cons_of_not (hspace c (hc ▸ List.mem_cons_self))
  have hjoined : (slaveKeyHeader slaveKey).joined =
      "X-QVD-Slave-Key".toList ++ ':' :: slaveKey.key :=
    congrArg (fun value => "X-QVD-Slave-Key".toList ++ ':' :: value) hjoin
  rw [hjoined, headerValue_self, hleft]

theorem answers_switch (slaveKey : SlaveKey) (rest : Text) :
    answers (sendHttpResponse 101 ["X-QVD-Slave-Key: ".toList ++ slaveKey.key] ++ rest) =
      .ok (.connected (some slaveKey.key), rest) := by
  have hplain : (slaveKeyHeader slaveKey).Plain := by
    refine ⟨List.all_eq_true.mp (show "X-QVD-Slave-Key".toList.all clientToken = true by decide),
      fun h => ?_⟩
    exact absurd (slaveKey.alpha _ ((List.dropLast_sublist _).mem h)) (by decide)
  have hresponse := response_of_plain 101 hplain
    (show "X-QVD-Slave-Key".toList ≠ "Content-Length".toList by decide) rest
  rw [show "X-QVD-Slave-Key: ".toList ++ slaveKey.key = (slaveKeyHeader slaveKey).text from rfl,
    answers_of_ok hresponse]
  have hlookup : headerLookup [(slaveKeyHeader slaveKey).joined] "X-QVD-Slave-Key".toList =
      some slaveKey.key := by
    rw [headerLookup, List.findSome?_cons, slaveKey.joined]
  rw [answer, if_pos (number_toDigits 101), hlookup]

/-- The length is found behind headers of other names. -/
theorem contentLength_error {headers : List Header}
    (hnames : ∀ h ∈ headers, h.name ≠ "Content-Length".toList) (code : Text)
    (message : Option Text) (length : ℕ) :
    contentLength ⟨code, message, (headers ++ [contentTypeHeader "text/plain".toList,
        contentLengthHeader length]).map Header.joined⟩ =
      if length = 0 then none else some length := by
  have hlookup : headerLookup ((headers ++ [contentTypeHeader "text/plain".toList,
      contentLengthHeader length]).map Header.joined) "Content-Length".toList =
        some (Nat.toDigits 10 length) := by
    have hothers : (headers.map Header.joined).findSome? (headerValue "Content-Length".toList) =
        none := by
      refine List.findSome?_eq_none_iff.mpr fun joined hjoined => ?_
      obtain ⟨h, hh, rfl⟩ := List.mem_map.mp hjoined
      exact headerValue_other (by decide) h.name_token (hnames h hh)
    rw [headerLookup, List.map_append, List.findSome?_append, hothers, Option.none_or]
    exact headerLookup_contentLength "text/plain".toList length
  have hzero : Nat.toDigits 10 length = [] ∨ Nat.toDigits 10 length = ['0'] ↔ length = 0 := by
    constructor
    · rintro (h | h)
      · simp at h
      · rw [← number_toDigits length, h]
        decide
    · rintro rfl
      exact .inr (by decide)
  simp only [contentLength, hlookup, Option.bind_some, hzero, number_toDigits]

/-- An error response with headers that read back. -/
theorem answers_error {code : ℕ} {headers : List Header} (hplain : ∀ h ∈ headers, h.Plain)
    (hnames : ∀ h ∈ headers, h.name ≠ "Content-Length".toList) (hcode : code ≠ 101 ∧ code ≠ 102)
    {content message : Text} (hmessage : fatalMessage code (Nat.toDigits 10 code)
      (httpStatusMessage code) content = message) (rest : Text) :
    answers (sendHttpResponseWithBody code "text/plain".toList (headers.map Header.text) content ++
        rest) =
      .ok (.failed message code, rest) := by
  have hall : ∀ h ∈ headers ++ [contentTypeHeader "text/plain".toList,
      contentLengthHeader content.length], h.Plain := by
    simp only [List.forall_mem_append, List.forall_mem_cons]
    refine ⟨hplain, ⟨?_, show '\n' ∉ "text/plain".toList.dropLast by decide⟩,
      contentLengthHeader_plain _, nofun⟩
    exact List.all_eq_true.mp (show "Content-Type".toList.all clientToken = true by decide)
  have htexts : headers.map Header.text ++ ["Content-Type: ".toList ++ "text/plain".toList,
      "Content-Length: ".toList ++ Nat.toDigits 10 content.length] =
      (headers ++ [contentTypeHeader "text/plain".toList,
        contentLengthHeader content.length]).map Header.text := by
    rw [List.map_append]
    rfl
  have hhead := (response_head_iff code _ (content ++ rest)).mpr hall
  have hlength := contentLength_error hnames (Nat.toDigits 10 code)
    (some (httpStatusMessage code)) content.length
  have hresponse : response (sendHttpResponse code ((headers ++ [contentTypeHeader
      "text/plain".toList, contentLengthHeader content.length]).map Header.text) ++
        (content ++ rest)) =
      .ok ((⟨Nat.toDigits 10 code, some (httpStatusMessage code), (headers ++ [contentTypeHeader
        "text/plain".toList, contentLengthHeader content.length]).map Header.joined⟩,
        if content.length = 0 then none else some content), rest) := by
    rw [response_eq, hhead]
    simp only [Except.bind, body, hlength]
    by_cases hzero : content.length = 0
    · obtain rfl := List.length_eq_zero_iff.mp hzero
      rfl
    · have hlong : ¬(content ++ rest).length < content.length := by
        rw [List.length_append]
        omega
      simp only [if_neg hzero, if_neg hlong, List.take_left, List.drop_left]
  rw [sendHttpResponseWithBody, htexts, List.append_assoc, answers_of_ok hresponse]
  simp only [answer, number_toDigits, if_neg hcode.1, if_neg hcode.2, Option.getD_some, ← hmessage]
  by_cases hzero : content.length = 0
  · obtain rfl := List.length_eq_zero_iff.mp hzero
    rfl
  · simp only [if_neg hzero, Option.getD_some]

/-- An error that was taken for headers: its code is not a header line. -/
theorem answers_misplaced {line : Text} (hline : '\n' ∉ line) (hne : line ≠ [])
    (htake : takeLine [] line = none) (code : ℕ) (headers : List Text) (content rest : Text) :
    answers (sendHttpResponseWithBody code "text/plain".toList (line :: headers) content ++ rest) =
      .error .badResponse := by
  have hfield : headerField line = line := by
    rw [headerField, matchLines, if_pos hline]
    simp
  refine answers_of_error ?_
  rw [response_eq, sendHttpResponseWithBody, List.append_assoc, readHttpResponseHead_send,
    List.cons_append, List.map_cons, List.flatMap_cons, hfield, List.append_assoc,
    List.append_assoc, readHeaders_line hline]
  simp only [if_neg hne, htake]
  rfl

theorem fatalMessage_unable {number : ℕ} {code msg status : Text}
    (hnumber : number ∉ [404, 426, 401, 502, 403]) (hstatus : code ++ ' ' :: msg = status)
    (content : Text) : fatalMessage number code msg content = unable status content := by
  have hne (other : ℕ) (hother : other ∈ [404, 426, 401, 502, 403]) : number ≠ other :=
    fun heq => hnumber (heq ▸ hother)
  have happend (before after : Text) : before ++ code ++ ' ' :: (msg ++ after) =
      before ++ (code ++ ' ' :: msg ++ after) := by
    simp only [List.append_assoc, List.cons_append]
  subst hstatus
  rewrite [fatalMessage, if_neg (hne 404 (by decide)), if_neg (hne 426 (by decide)),
    if_neg (hne 401 (by decide)), if_neg (hne 502 (by decide)), if_neg (hne 403 (by decide))]
  exact happend _ _

def authenticateHeader : Header :=
  ⟨"WWW-Authenticate".toList, "Basic realm=\"QVD\"".toList, by decide,
    List.all_eq_true.mp (by decide)⟩

/-- The client's loop on a refusal. -/
theorem answers_refusal (refusal : Refusal) (rest : Text) :
    (∃ left, answers (sendHttpError refusal ++ rest) = .ok (refusal.outcome, left)) ∨
      answers (sendHttpError refusal ++ rest) = .error .badResponse ∧
        refusal.outcome = badAnswer .badResponse := by
  have htext {code : ℕ} {content message : Text} (hcode : code ≠ 101 ∧ code ≠ 102)
      (hmessage : fatalMessage code (Nat.toDigits 10 code) (httpStatusMessage code) content =
        message) :
      answers (sendHttpResponseWithBody code "text/plain".toList [] content ++ rest) =
        .ok (.failed message code, rest) :=
    answers_error (List.forall_mem_nil _) (List.forall_mem_nil _) hcode hmessage rest
  have h422 := @fatalMessage_unable 422 (Nat.toDigits 10 422) (httpStatusMessage 422)
    "422 Unprocessable Entity".toList (by decide) (by decide)
  have h500 := @fatalMessage_unable 500 (Nat.toDigits 10 500) (httpStatusMessage 500)
    "500 Internal Server Error".toList (by decide) (by decide)
  have h503 := @fatalMessage_unable 503 (Nat.toDigits 10 503) (httpStatusMessage 503)
    "503 Service Unavailable".toList (by decide) (by decide)
  have hbad : badAnswer .badResponse = .failed (unable "652 Bad Response ".toList []) 652 :=
    congrArg (Outcome.failed · 652) (@fatalMessage_unable 652 "652 Bad Response".toList []
      "652 Bad Response ".toList (by decide) (by decide) [])
  cases refusal with
  | hostNotRegistered => exact .inl ⟨rest, htext (by decide) (h503 _)⟩
  | unauthorized =>
    have hname : authenticateHeader.name ≠ "Content-Length".toList := by decide
    have hplain : authenticateHeader.Plain :=
      ⟨List.all_eq_true.mp (show authenticateHeader.name.all clientToken = true by decide),
        by decide⟩
    have hheaders : ["WWW-Authenticate: Basic realm=\"QVD\"".toList] =
        [authenticateHeader].map Header.text := by decide
    refine .inl ⟨rest, ?_⟩
    rw [sendHttpError, Refusal.error, hheaders]
    exact answers_error (List.forall_mem_singleton.mpr hplain)
      (List.forall_mem_singleton.mpr hname) (by decide) rfl rest
  | serverBlocked => exact .inl ⟨rest, htext (by decide) (h503 _)⟩
  | upgradeRequired => exact .inl ⟨rest, htext (by decide) rfl⟩
  | otherMachine => exact .inl ⟨rest, htext (by decide) rfl⟩
  | missingId => exact .inl ⟨rest, htext (by decide) (h422 _)⟩
  | invalidParameters names =>
    exact .inl ⟨rest, htext (show 403 ≠ 101 ∧ 403 ≠ 102 by decide) rfl⟩
  | machineNotFound =>
    exact .inr ⟨answers_misplaced (by decide) (by decide) (by decide) 404 _ _ rest, hbad.symm⟩
  | machineOffline =>
    exact .inr ⟨answers_misplaced (by decide) (by decide) (by decide) 404 _ _ rest, hbad.symm⟩
  | unavailable err =>
    exact .inl ⟨rest, htext (show 503 ≠ 101 ∧ 503 ≠ 102 by decide) (h503 _)⟩
  | died err =>
    exact .inl ⟨rest, htext (show 500 ≠ 101 ∧ 500 ≠ 102 by decide) (h500 err)⟩

/-- What the client is told in a turn are lines. -/
theorem step_lines {stage : Stage} (h : Step vm stage said after) : ∀ m ∈ said, '\n' ∉ m := by
  have hid : '\n' ∉ idText vm := fun hmem => absurd (toDigits_digits vm _ hmem) (by decide)
  have hline (before : Text) (hbefore : '\n' ∉ before) : '\n' ∉ before ++ idText vm := by
    rw [List.mem_append, not_or]
    exact ⟨hbefore, hid⟩
  induction h with
  | contended => exact List.forall_mem_singleton.mpr (hline _ (by decide))
  | acquired => exact List.forall_mem_singleton.mpr (hline _ (by decide))
  | assigned => exact List.forall_mem_nil _
  | assign =>
    refine List.forall_mem_singleton.mpr fun hmem => ?_
    exact (List.mem_append.mp hmem).elim (hline _ (by decide)) (by decide)
  | started => exact List.forall_mem_nil _
  | start => exact List.forall_mem_singleton.mpr (by decide)
  | poll => exact List.forall_mem_singleton.mpr (by decide)
  | running => exact List.forall_mem_nil _
  | startX => exact List.forall_mem_singleton.mpr (hline _ (by decide))
  | waitX => exact List.forall_mem_singleton.mpr (hline _ (by decide))
  | forward =>
    exact List.forall_mem_cons.mpr
      ⟨hline _ (by decide), List.forall_mem_singleton.mpr (by decide)⟩
  | dies err hstep hsaid ih => exact fun m hm => ih m (hsaid.subset hm)

theorem run_lines {stage : Stage} (h : Run vm stage said after) : ∀ m ∈ said, '\n' ∉ m := by
  induction h with
  | start stage => exact List.forall_mem_nil _
  | turn hstep _ ih => exact List.forall_mem_append.mpr ⟨step_lines hstep, ih⟩
  | ends hstep => exact step_lines hstep

theorem served_lines (h : Served vm said after) : ∀ m ∈ said, '\n' ∉ m := by
  cases h with
  | refused refusal => exact List.forall_mem_nil _
  | accepted hrun => exact run_lines hrun

theorem answers_said (hsaid : ∀ m ∈ said, '\n' ∉ m) (rest : Text) :
    answers (said.flatMap tellClient ++ rest) = answers rest := by
  induction said with
  | nil => rfl
  | cons message said ih =>
    obtain ⟨hmessage, hsaid⟩ := List.forall_mem_cons.mp hsaid
    rw [List.flatMap_cons, List.append_assoc, answers_tellClient hmessage, ih hsaid]

/-- The loop makes an end of what has been written as soon as the server has made one. -/
theorem answers_written (slaveKey : SlaveKey) (hserved : Served vm said after) (session : Text) :
    match after with
    | .at _ => answers (written slaveKey said after) = .error .closed
    | .refused refusal =>
      (∃ left, answers (written slaveKey said after ++ session) = .ok (refusal.outcome, left)) ∨
        answers (written slaveKey said after ++ session) = .error .badResponse ∧
          refusal.outcome = badAnswer .badResponse
    | .forwarding =>
      answers (written slaveKey said after ++ session) =
        .ok (.connected (some slaveKey.key), session) := by
  have hsaid := served_lines hserved
  cases after with
  | «at» stage =>
    have hnil : answers [] = .error .closed := answers_of_error (by
      rw [response_eq, readHttpResponseHead_lineReader.none rfl]
      rfl)
    dsimp only
    rw [written, answers_said hsaid, hnil]
  | refused refusal =>
    dsimp only
    rw [written, List.append_assoc, answers_said hsaid]
    exact answers_refusal refusal session
  | forwarding =>
    dsimp only
    rw [written, List.append_assoc, answers_said hsaid]
    exact answers_switch slaveKey session

theorem answers_ended (slaveKey : SlaveKey) (hserved : Served vm said after)
    (hended : after.outcome slaveKey ≠ none) :
    answers (written slaveKey said after) ≠ .error .closed := by
  have hwritten := answers_written slaveKey hserved []
  cases after with
  | «at» stage => exact absurd rfl hended
  | refused refusal =>
    simp only [List.append_nil] at hwritten
    rcases hwritten with ⟨left, hread⟩ | ⟨hread, -⟩
    · rw [hread]
      exact nofun
    · rw [hread]
      exact nofun
  | forwarding =>
    simp only [List.append_nil] at hwritten
    rw [hwritten]
    exact nofun

/-- A client that lacks an end has not received all that comes before the session. -/
theorem unread_of_lacking {slaveKey : SlaveKey} (hserved : Served vm said after)
    (hended : after.outcome slaveKey ≠ none) {received : List Byte} {session stream : Text}
    (hlacking : Lacking answers received)
    (hsent : text received ++ stream = written slaveKey said after ++ session) :
    ∃ unread ≠ [], stream = unread ++ session ∧
      written slaveKey said after = text received ++ unread := by
  have hclosed : answers (text received) = .error .closed := hlacking
  have hnot (more : Text) : text received ≠ written slaveKey said after ++ more := by
    intro heq
    have hended := answers_ended slaveKey hserved hended
    rw [heq, answers_grows _ more hended] at hclosed
    cases hread : answers (written slaveKey said after) with
    | ok r =>
      rw [hread] at hclosed
      cases hclosed
    | error e =>
      rw [hread] at hclosed hended
      exact hended hclosed
  rcases List.append_eq_append_iff.mp hsent with ⟨unread, hwritten, hstream⟩ | ⟨more, hmore, -⟩
  · refine ⟨unread, ?_, hstream, hwritten⟩
    rintro rfl
    exact hnot [] (by rw [hwritten, List.append_nil, List.append_nil])
  · exact absurd hmore (hnot more)

/-- An end that the client has come to is the one that has been written. -/
theorem outcome_of_answered {slaveKey : SlaveKey} (hserved : Served vm said after)
    {session : Text} (hsession : after.outcome slaveKey = none → session = []) {outcome : Outcome}
    {received left : List Byte} {stream : Text} (hanswered : Answered outcome received left)
    (hsent : text received ++ stream = written slaveKey said after ++ session) :
    after.outcome slaveKey = some outcome ∧
      (after = .forwarding → text left ++ stream = session) := by
  have hwritten := answers_written slaveKey hserved session
  rcases hanswered with hread | ⟨e, hne, hread, rfl⟩
  · have hread := answers_grows.ok hread stream
    rw [hsent] at hread
    cases after with
    | «at» stage =>
      rw [hsession rfl, List.append_nil, hwritten] at hread
      cases hread
    | refused refusal =>
      refine ⟨?_, nofun⟩
      rcases hwritten with ⟨left', hend⟩ | ⟨hend, -⟩
      · cases hend.symm.trans hread
        rfl
      · cases hend.symm.trans hread
    | forwarding =>
      cases hwritten.symm.trans hread
      exact ⟨rfl, fun _ => rfl⟩
  · have hread := answers_grows.error hread hne stream
    rw [hsent] at hread
    cases after with
    | «at» stage =>
      rw [hsession rfl, List.append_nil, hwritten] at hread
      exact absurd (Except.error.inj hread).symm hne
    | refused refusal =>
      refine ⟨?_, nofun⟩
      rcases hwritten with ⟨left', hend⟩ | ⟨hend, houtcome⟩
      · cases hend.symm.trans hread
      · cases hend.symm.trans hread
        exact congrArg some houtcome
    | forwarding => cases hwritten.symm.trans hread

/-- Whatever turns the server's side takes and however its bytes arrive, the client comes to the
end that the server has made, and leaves the session alone. -/
theorem connect_understood (ssl : Bool) (slaveKey : SlaveKey) (hserved : Served vm said after)
    {session : Text} (hsession : after.outcome slaveKey = none → session = []) {c : Client}
    (hsent : text (c.bin ++ c.stream) = written slaveKey said after ++ session) (ts : List Turn) :
    Understood ssl slaveKey said after session ts (connectLoop ssl c ts) := by
  have hreads := connectLoop_reads ssl c ts
  have hreceived {extra : List Byte} {c' : Client} {ts' : List Turn} (h : Takes c ts extra c' ts') :
      text (c.bin ++ extra) ++ text c'.stream = written slaveKey said after ++ session := by
    rw [← hsent, h.stream, ← text_append, List.append_assoc]
  cases hloop : connectLoop ssl c ts with
  | value outcome c' ts' =>
    rw [hloop] at hreads
    obtain ⟨extra, htakes, hanswered⟩ := hreads
    have hend := outcome_of_answered hserved hsession hanswered (hreceived htakes)
    rwa [Understood, text_append]
  | died d t c' =>
    rw [hloop] at hreads
    obtain ⟨extra, ts', htakes, hlacking, hreason⟩ := hreads
    refine ⟨fun hended => ?_, hreason⟩
    obtain ⟨unread, hne, hstream, -⟩ :=
      unread_of_lacking hserved hended hlacking (hreceived htakes)
    exact ⟨unread, hne, hstream⟩
  | waiting c' =>
    rw [hloop] at hreads
    obtain ⟨extra, htakes, hlacking⟩ := hreads
    refine ⟨fun hended => ?_, fun hended => ?_⟩
    · obtain ⟨unread, hne, hstream, -⟩ :=
        unread_of_lacking hserved hended hlacking (hreceived htakes)
      exact ⟨unread, hne, hstream⟩
    · obtain ⟨unread, hne, hstream, hwritten⟩ :=
        unread_of_lacking hserved hended hlacking (hreceived htakes)
      have hstream : c'.stream ≠ [] := by
        intro hnil
        rw [hnil] at hstream
        exact hne (List.append_eq_nil_iff.mp hstream.symm).1
      have hbytes : arrivals ts ≤ extra.length := by
        have hle := htakes.arrivals_le hstream
        rwa [show arrivals [] = 0 from rfl, Nat.zero_add] at hle
      have hpos := List.length_pos_iff.mpr hne
      rw [hwritten, text, List.length_append, List.length_map, List.length_append]
      omega

/-- A machine that is running already, and a session that begins with its greeting. -/
def quickSaid : List Text :=
  ["Session acquired for VM_ID: 7".toList, "Starting X session at VM 7".toList,
    "Waiting for X session to come up on VM 7".toList,
    "Connecting X session for VM_ID: 7".toList, "Connection established".toList]

theorem quick_served : Served 7 quickSaid .forwarding :=
  .accepted (.turn .acquired (.turn .assigned (.turn .started (.turn .running
    (.turn .startX (.turn .waitX (.ends .forward)))))))

def quickKey : SlaveKey :=
  ⟨List.replicate 64 'K', by decide, List.all_eq_true.mp (by decide)⟩

def quickClient : Client where
  bin := []
  stream := (written quickKey quickSaid .forwarding ++ "NXD-".toList).map fun c => c.toNat.toUInt8

theorem quick_understood :
    Understood true quickKey quickSaid .forwarding "NXD-".toList
      (List.replicate 900 ⟨.bytes 0, .ready⟩)
      (connectLoop true quickClient (List.replicate 900 ⟨.bytes 0, .ready⟩)) :=
  connect_understood true quickKey quick_served (fun h => absurd h (by decide))
    (by decide +kernel) (List.replicate 900 ⟨.bytes 0, .ready⟩)

end Conversations

end Qvd.ConnectAnswers
