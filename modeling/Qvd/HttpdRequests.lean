import Mathlib
import Qvd.HttpHeads

/-!
The request loop of the server over one connection. The loop, the dispatcher and the reading
of a body take from the same stream; what a processor does not read of a body is what the
loop reads next.
-/
namespace Qvd.HttpdRequests

open Qvd.LineText Qvd.HttpHeads

/-! ### The request line -/

/-- `HTTP/\d+\.\d+`, the whole text. -/
def isVersion (s : Text) : Bool :=
  let number := s.drop 5
  let minor := number.dropWhile Char.isDigit
  "HTTP/".toList.isPrefixOf s && number.head?.any Char.isDigit &&
    minor.head? == some '.' && !minor.tail.isEmpty && minor.tail.all Char.isDigit

/-- `\s*((?:\bHTTP/\d+\.\d+)?)$` after the character `prev`. -/
def versionTail (prev : Char) (s : Text) : Option Text :=
  let tail := trimLeft s
  if tail.isEmpty then some []
  else if isVersion tail && (s.head?.any isSpace || !isWord prev) then some tail
  else none

/-- `(.*?)` up to the version: the shortest URL that leaves a version or nothing. -/
def requestUrl (prev : Char) : Text → Text × Text
  | [] => ([], [])
  | c :: cs =>
    match versionTail prev (c :: cs) with
    | some version => ([], version)
    | none => (c :: (requestUrl c cs).1, (requestUrl c cs).2)

/-- `m|^(\w+)\s+(.*?)\s*((?:\bHTTP/\d+\.\d+)?)$|`. -/
def requestLine (line : Text) : Option (Text × Text × Text) :=
  match line.takeWhile isWord, line.dropWhile isWord with
  | m :: method, c :: rest =>
    if isSpace c then some (m :: method, requestUrl c (trimLeft rest)) else none
  | _, _ => none

/-! ### The headers -/

/-- `<$socket>` and the chomp: a last line may lack its line feed. -/
def nextLine (input : Text) : Option (Text × Text) :=
  match splitLine input with
  | some (raw, rest) => some (dropCr raw, rest)
  | none => if input.isEmpty then none else some (input, [])

theorem length_of_nextLine {input line rest : Text} (h : nextLine input = some (line, rest)) :
    rest.length < input.length := by
  simp only [nextLine] at h
  split at h
  · rename_i raw left hsplit
    obtain ⟨-, rfl⟩ := Prod.mk.inj (Option.some.inj h)
    exact length_of_splitLine hsplit
  · split at h
    · simp at h
    · rename_i hempty
      obtain ⟨-, rfl⟩ := Prod.mk.inj (Option.some.inj h)
      simpa [List.length_pos_iff] using hempty

inductive HeaderLines
  | complete (headers : List Text) (rest : Text)
  | refused
  | closed

/-- What a header line or a continuation does to the headers; `none` for another line. -/
def takeLine (headers : List Text) (line : Text) : Option (List Text) :=
  match headerLine serverToken line with
  | some (name, value) => some (headers ++ [headerText name value])
  | none => (continuation line).bind (continueHeader headers)

def readHeaders (headers : List Text) (input : Text) : HeaderLines :=
  match _h : nextLine input with
  | none => .closed
  | some (line, rest) =>
    match takeLine headers line with
    | some headers => readHeaders headers rest
    | none => if line = [] then .complete headers rest else .refused
termination_by input.length
decreasing_by exact length_of_nextLine (by assumption)

theorem length_of_readHeaders {headers read : List Text} {input rest : Text}
    (h : readHeaders headers input = .complete read rest) : rest.length < input.length := by
  fun_induction readHeaders headers input with
  | case1 => simp at h
  | case2 headers input line left hnext headers' _ ih =>
    exact (ih h).trans (length_of_nextLine hnext)
  | case3 headers input left hnext =>
    obtain ⟨-, rfl⟩ := HeaderLines.complete.inj h
    exact length_of_nextLine hnext
  | case4 => simp at h

/-! ### Processors -/

/-- What a registered callback does, as far as the stream and the reply are concerned:
`save_content_into_temp_file`, with the temporary file created or not and the socket failing
after some bytes or not; an exception; or something that leaves the stream alone. -/
inductive Action
  | save (created : Bool) (broken : Option ℕ)
  | throwHttpError (code : ℕ)
  | die
  | other

inductive Outcome
  | notFound
  | finished
  | httpError (code : ℕ)
  | internalServerError
  deriving DecidableEq, Repr

/-- `save_content_into_temp_file`: the error it throws, if any, and what is left. -/
def saveContentIntoTempFile (headers : List Text) (created : Bool) (broken : Option ℕ)
    (input : Text) : Option ℕ × Text :=
  match headerLookup headers "Content-Length".toList with
  | none => (some 411, input)
  | some len =>
    if !created then (some 500, input)
    else if len = [] ∨ len = ['0'] then (none, input)
    else if number len = 0 then (some 400, input)
    else match broken with
      | some n =>
        if n < number len then (some 400, input.drop n)
        else if input.length < number len then (some 400, []) else (none, input.drop (number len))
      | none =>
        if input.length < number len then (some 400, []) else (none, input.drop (number len))

def runActions (headers : List Text) : List Action → Text → Outcome × Text
  | [], input => (.finished, input)
  | .other :: rest, input => runActions headers rest input
  | .die :: _, input => (.internalServerError, input)
  | .throwHttpError code :: _, input => (.httpError code, input)
  | .save created broken :: rest, input =>
    match saveContentIntoTempFile headers created broken input with
    | (some code, left) => (.httpError code, left)
    | (none, left) => runActions headers rest left

/-- The callback registered for the n-th request of the connection, if there is one. -/
abbrev Processor := ℕ → Text → Text → List Text → Option (List Action)

/-- `_process_http_request`. -/
def processHttpRequest (processor : Processor) (n : ℕ) (method url : Text)
    (headers : List Text) (input : Text) : Outcome × Text :=
  match processor n method url headers with
  | some actions => runActions headers actions input
  | none => (.notFound, input)

/-! ### What a processor takes from the stream -/

/-- The bytes that one call asks for. -/
def saveBytes (headers : List Text) (created : Bool) (broken : Option ℕ) : ℕ :=
  match headerLookup headers "Content-Length".toList with
  | none => 0
  | some len =>
    if !created then 0
    else match broken with
      | some n => min n (number len)
      | none => number len

/-- The call throws whatever the stream holds. -/
def saveThrows (headers : List Text) (created : Bool) (broken : Option ℕ) : Bool :=
  match headerLookup headers "Content-Length".toList with
  | none => true
  | some len =>
    !created || (len != [] && len != ['0'] && (number len == 0 || broken.any (· < number len)))

/-- The bytes that the actions ask for up to the first exception. -/
def bytesAsked (headers : List Text) : List Action → ℕ
  | [] => 0
  | .other :: rest => bytesAsked headers rest
  | .die :: _ => 0
  | .throwHttpError _ :: _ => 0
  | .save created broken :: rest =>
    if saveThrows headers created broken then saveBytes headers created broken
    else saveBytes headers created broken + bytesAsked headers rest

/-- What a call leaves of the stream; and it goes through unless it throws anyway or the stream
ends too early. -/
theorem save_spec (headers : List Text) (created : Bool) (broken : Option ℕ) (input : Text) :
    (saveContentIntoTempFile headers created broken input).2 =
        input.drop (saveBytes headers created broken) ∧
      ((saveContentIntoTempFile headers created broken input).1 = none ↔
        saveThrows headers created broken = false ∧
          saveBytes headers created broken ≤ input.length) := by
  simp only [saveContentIntoTempFile, saveBytes, saveThrows]
  split
  · simp
  · rename_i len _
    by_cases hcreated : (!created) = true
    · simp [hcreated]
    · simp only [hcreated]
      have hdrop : ∀ k, input.length < k → input.drop k = [] :=
        fun k hk => List.drop_eq_nil_of_le (Nat.le_of_lt hk)
      by_cases hlen : len = [] ∨ len = ['0']
      · have hzero : number len = 0 := by rcases hlen with rfl | rfl <;> decide
        rcases hlen with rfl | rfl <;> cases broken <;> simp [hzero]
      · have hlen' : len ≠ [] ∧ len ≠ ['0'] := not_or.mp hlen
        cases broken with
        | none =>
          by_cases hzero : number len = 0
          · simp [hlen', hzero]
          · by_cases hend : input.length < number len
            · simp [hlen', hzero, hend, hdrop _ hend, Nat.not_le.mpr hend]
            · simp [hlen', hzero, hend, Nat.le_of_not_lt hend]
        | some n =>
          by_cases hzero : number len = 0
          · simp [hlen', hzero]
          · by_cases hn : n < number len
            · simp [hlen', hzero, hn, Nat.min_eq_left (Nat.le_of_lt hn)]
            · have hmin : min n (number len) = number len := Nat.min_eq_right (by omega)
              by_cases hend : input.length < number len
              · simp [hlen', hzero, hn, hend, hmin, hdrop _ hend, Nat.not_le.mpr hend]
              · simp [hlen', hzero, hn, hend, hmin, Nat.le_of_not_lt hend]

theorem runActions_left (headers : List Text) (actions : List Action) (input : Text) :
    (runActions headers actions input).2 = input.drop (bytesAsked headers actions) := by
  induction actions generalizing input with
  | nil => rfl
  | cons action rest ih =>
    cases action with
    | other => exact ih input
    | die => rfl
    | throwHttpError code => rfl
    | save created broken =>
      obtain ⟨hleft, herror⟩ := save_spec headers created broken input
      rw [runActions, bytesAsked]
      cases hsave : saveContentIntoTempFile headers created broken input with
      | mk error left =>
        rw [hsave] at hleft herror
        dsimp only at hleft herror
        cases error with
        | none =>
          rw [if_neg (by simp [(herror.mp rfl).1]), ← List.drop_drop, ← hleft]
          exact ih left
        | some code =>
          show left = _
          split
          · exact hleft
          · rename_i hthrows
            have hend : input.length < saveBytes headers created broken := by
              by_contra hle
              exact absurd (herror.mpr ⟨by simpa using hthrows, by omega⟩) (by simp)
            rw [hleft, List.drop_eq_nil_of_le (by omega), List.drop_eq_nil_of_le (by omega)]

theorem length_of_processHttpRequest (processor : Processor) (n : ℕ) (method url : Text)
    (headers : List Text) (input : Text) :
    (processHttpRequest processor n method url headers input).2.length ≤ input.length := by
  rw [processHttpRequest]
  split
  · rw [runActions_left, List.length_drop]
    exact Nat.sub_le ..
  · exact le_rfl

/-! ### The loop -/

/-- A request handed to the dispatcher, its outcome, and the stream that the loop goes on
with. -/
structure Dispatch where
  method : Text
  url : Text
  headers : List Text
  outcome : Outcome
  left : Text

inductive Ending
  | closed
  | error (code : ℕ)
  deriving DecidableEq, Repr

/-- `process_request`, after `n` requests. -/
def processRequest (processor : Processor) (n : ℕ) (input : Text) : List Dispatch × Ending :=
  match _h : nextLine input with
  | none => ([], .closed)
  | some (line, rest) =>
    if line.all isSpace then processRequest processor n rest
    else
      match requestLine line with
      | none => ([], .error 400)
      | some (method, url, version) =>
        if version ≠ "HTTP/1.1".toList then ([], .error 505)
        else
          match _hheaders : readHeaders [] rest with
          | .closed => ([], .closed)
          | .refused => ([], .error 400)
          | .complete headers body =>
            let r := processHttpRequest processor n method url headers body
            (⟨method, url, headers, r.1, r.2⟩ :: (processRequest processor (n + 1) r.2).1,
              (processRequest processor (n + 1) r.2).2)
termination_by input.length
decreasing_by
  · exact length_of_nextLine (by assumption)
  all_goals
    have hnext := length_of_nextLine _h
    have hread := length_of_readHeaders _hheaders
    have hrun := length_of_processHttpRequest processor n method url headers body
    omega

/-! ### Well-formed requests -/

/-- A header of a request: a line, and the lines it is continued on. -/
structure Header where
  name : Text
  value : Text
  folds : List Text
  name_ne_nil : name ≠ []
  name_token : ∀ c ∈ name, isTokenChar c = true
  value_line : '\n' ∉ value
  folds_line : ∀ f ∈ folds, '\n' ∉ f ∧ f.head?.any isSpace = true

/-- The name is that of the length of the body, in any case. -/
def Header.IsLength (h : Header) : Prop :=
  h.name.map Char.toLower = "content-length".toList

instance (h : Header) : Decidable h.IsLength :=
  inferInstanceAs (Decidable (h.name.map Char.toLower = "content-length".toList))

/-- A request with a body as long as it says; without that header there is no body. -/
structure Request where
  method : Text
  url : Text
  headers : List Header
  body : Text
  method_ne_nil : method ≠ []
  method_token : ∀ c ∈ method, isTokenChar c = true
  url_ne_nil : url ≠ []
  url_visible : ∀ c ∈ url, isSpace c = false
  length_eq : ∀ h ∈ headers, h.IsLength →
    h.folds = [] ∧ trim h.value ≠ [] ∧ (∀ c ∈ trim h.value, c.isDigit = true) ∧
      number (trim h.value) = body.length
  length_of_body : body ≠ [] → ∃ h ∈ headers, h.IsLength

def crlf : Text := ['\r', '\n']

def Header.text (h : Header) : Text :=
  h.name ++ ':' :: h.value ++ crlf ++ h.folds.flatMap (· ++ crlf)

/-- The bytes of a request. -/
def Request.text (r : Request) : Text :=
  r.method ++ ' ' :: r.url ++ " HTTP/1.1".toList ++ crlf ++ r.headers.flatMap Header.text ++
    crlf ++ r.body

/-- The header in one line. -/
def Header.joined (h : Header) : Text :=
  h.folds.foldl (fun header f => header ++ ' ' :: trim f) (headerText h.name (trim h.value))

/-- What the dispatcher is to get, request by request, and what of the stream is to be left
after each. -/
def expected : List Request → List (Text × Text × List Text × Text)
  | [] => []
  | r :: rest => (r.method, r.url, r.headers.map Header.joined, rest.flatMap Request.text) ::
      expected rest

def Dispatch.request (d : Dispatch) : Text × Text × List Text × Text :=
  (d.method, d.url, d.headers, d.left)

/-- The head is made of what the patterns of the server take. -/
def Request.Plain (r : Request) : Prop :=
  (∀ c ∈ r.method, isWord c = true) ∧ ∀ h ∈ r.headers,
    (∀ c ∈ h.name, serverToken c = true) ∧ ∀ f ∈ h.folds, (continuation f).isSome = true

/-- The n-th request is taken off the stream: its processor asks for its body and no more
than that, or it is the last one and its processor asks for no less. -/
def Taken (processor : Processor) (n : ℕ) (r : Request) (last : Bool) : Prop :=
  let asked := ((processor n r.method r.url (r.headers.map Header.joined)).map
    (bytesAsked (r.headers.map Header.joined))).getD 0
  asked = r.body.length ∨ (last = true ∧ r.body.length ≤ asked)

def AllTaken (processor : Processor) : ℕ → List Request → Prop
  | _, [] => True
  | n, r :: rest => r.Plain ∧ Taken processor n r rest.isEmpty ∧ AllTaken processor (n + 1) rest

/-! ### Reading a head -/

section Heads

variable {line rest : Text} {headers : List Text}

theorem nextLine_crlf (hline : '\n' ∉ line) (rest : Text) :
    nextLine (line ++ crlf ++ rest) = some (line, rest) := by
  have happend : line ++ crlf ++ rest = (line ++ ['\r']) ++ '\n' :: rest := by simp [crlf]
  rw [nextLine, happend, splitLine_append (by simp [hline])]
  simp [dropCr_append]

theorem isVersion_visible {s : Text} (h : isVersion s = true) : ∀ c ∈ s, isSpace c = false := by
  simp only [isVersion, Bool.and_eq_true, List.isPrefixOf_iff_prefix, beq_iff_eq,
    List.all_eq_true] at h
  obtain ⟨⟨⟨⟨⟨number, rfl⟩, -⟩, hdot⟩, -⟩, hminor⟩ := h
  have hdrop : ("HTTP/".toList ++ number).drop 5 = number := by
    rw [List.drop_append_of_le_length (by decide)]
    rfl
  rw [hdrop] at hdot hminor
  intro c hc
  rcases List.mem_append.mp hc with hc | hc
  · have hall : "HTTP/".toList.all (!isSpace ·) = true := by decide
    simpa using List.all_eq_true.mp hall c hc
  · rw [← List.takeWhile_append_dropWhile (p := Char.isDigit) (l := number)] at hc
    rcases List.mem_append.mp hc with hc | hc
    · exact isDigit_not_space (List.mem_takeWhile_imp hc)
    · cases hd : number.dropWhile Char.isDigit with
      | nil => simp [hd] at hc
      | cons d minor =>
        rw [hd] at hc hdot hminor
        rcases List.mem_cons.mp hc with rfl | hc
        · obtain rfl : c = '.' := by simpa using hdot
          decide
        · exact isDigit_not_space (hminor c hc)

/-- The URL ends at the blank before the version. -/
theorem requestUrl_version {url : Text} (hurl : ∀ c ∈ url, isSpace c = false) (prev : Char) :
    requestUrl prev (url ++ ' ' :: "HTTP/1.1".toList) = (url, "HTTP/1.1".toList) := by
  induction url generalizing prev with
  | nil =>
    have htail : versionTail prev (' ' :: "HTTP/1.1".toList) = some "HTTP/1.1".toList := by
      have htrim : trimLeft (' ' :: "HTTP/1.1".toList) = "HTTP/1.1".toList := by decide
      have hversion : isVersion "HTTP/1.1".toList = true := by decide
      rw [versionTail, htrim, hversion]
      simp [isSpace]
    rw [List.nil_append, requestUrl, htail]
  | cons c url ih =>
    obtain ⟨hc, hurl⟩ := List.forall_mem_cons.mp hurl
    have htail : versionTail prev (c :: (url ++ ' ' :: "HTTP/1.1".toList)) = none := by
      have hversion : isVersion (c :: (url ++ ' ' :: "HTTP/1.1".toList)) = false := by
        by_contra h
        have := isVersion_visible (by simpa using h) ' ' (by simp)
        exact absurd this (by decide)
      rw [versionTail, trimLeft_cons_of_not hc, hversion]
      rfl
    rw [List.cons_append, requestUrl, htail]
    simp only [ih hurl]

/-- The request line is read as it was written where the method is a word. -/
theorem requestLine_text (r : Request) :
    requestLine (r.method ++ ' ' :: (r.url ++ ' ' :: "HTTP/1.1".toList)) =
      if r.method.all isWord then some (r.method, r.url, "HTTP/1.1".toList) else none := by
  have hleft : trimLeft (r.url ++ ' ' :: "HTTP/1.1".toList) =
      r.url ++ ' ' :: "HTTP/1.1".toList := by
    obtain ⟨c, url, hc⟩ := List.exists_cons_of_ne_nil r.url_ne_nil
    rw [hc]
    exact trimLeft_cons_of_not (r.url_visible c (hc ▸ List.mem_cons_self))
  split
  · rename_i hword
    obtain ⟨htake, hdrop⟩ := takeWhile_append_of_all
      (' ' :: (r.url ++ ' ' :: "HTTP/1.1".toList)) (List.all_eq_true.mp hword)
      (by rintro c ⟨rfl⟩; decide)
    obtain ⟨m, method, hm⟩ := List.exists_cons_of_ne_nil r.method_ne_nil
    rw [requestLine, htake, hdrop, hm]
    simp only [show isSpace ' ' = true by decide, if_true, hleft,
      requestUrl_version r.url_visible]
  · rename_i hword
    obtain ⟨before, c, after, hmethod, hc, hbefore⟩ :=
      exists_first_outside (by simpa using hword)
    have hspace : isSpace c = false :=
      isTokenChar_not_space (r.method_token c (by simp [hmethod]))
    obtain ⟨htake, hdrop⟩ := takeWhile_append_of_all
      (c :: (after ++ ' ' :: (r.url ++ ' ' :: "HTTP/1.1".toList))) hbefore
      (by rintro d ⟨rfl⟩; exact hc)
    rw [hmethod, List.append_assoc, List.cons_append, requestLine, htake, hdrop]
    cases before with
    | nil => rfl
    | cons m before => simp [hspace]

theorem serverToken_space {c : Char} (h : isSpace c = true) : serverToken c = false := by
  simp only [isSpace, Bool.or_eq_true, beq_iff_eq] at h
  rcases h with ((((rfl | rfl) | rfl) | rfl) | rfl) | rfl <;> decide

theorem readHeaders_line (hline : '\n' ∉ line) (headers : List Text) (rest : Text) :
    readHeaders headers (line ++ crlf ++ rest) =
      match takeLine headers line with
      | some headers => readHeaders headers rest
      | none => if line = [] then .complete headers rest else .refused := by
  have hnext := nextLine_crlf hline rest
  rw [readHeaders]
  split
  · rename_i heq
    exact absurd (hnext.symm.trans heq) (by simp)
  · rename_i heq
    obtain ⟨rfl, rfl⟩ := Prod.mk.inj (Option.some.inj (hnext.symm.trans heq))
    rfl

/-- The continuations of a header are joined to it, or one of them is refused. -/
theorem readHeaders_folds (folds : List Text)
    (hfolds : ∀ f ∈ folds, '\n' ∉ f ∧ f.head?.any isSpace = true) (header : Text)
    (headers : List Text) (rest : Text) :
    readHeaders (headers ++ [header]) (folds.flatMap (· ++ crlf) ++ rest) =
      if ∀ f ∈ folds, (continuation f).isSome = true then
        readHeaders (headers ++ [folds.foldl (fun header f => header ++ ' ' :: trim f) header]) rest
      else .refused := by
  induction folds generalizing header with
  | nil => simp
  | cons f folds ih =>
    obtain ⟨⟨hline, hspace⟩, hfolds⟩ := List.forall_mem_cons.mp hfolds
    have hheader : headerLine serverToken f = none := by
      cases f with
      | nil => simp at hspace
      | cons c f => exact headerLine_of_space (serverToken_space (by simpa using hspace))
    rw [List.flatMap_cons, List.append_assoc, readHeaders_line hline, takeLine, hheader]
    by_cases hf : (continuation f).isSome = true
    · have htext : continuation f = some (trim f) := by
        rw [continuation] at hf ⊢
        split at hf
        · rename_i hcond
          rw [if_pos hcond]
        · simp at hf
      simp only [htext, Option.bind_some, continueHeader, List.getLast?_append,
        List.getLast?_singleton, Option.some_or, Option.map_some, List.dropLast_concat,
        List.forall_mem_cons, Option.isSome_some, true_and, List.foldl_cons]
      exact ih hfolds _
    · have hne : f ≠ [] := by
        rintro rfl
        simp at hspace
      have hnone : continuation f = none := by simpa using hf
      simp [hnone, hne]

/-- The header lines of a request are joined as they should be, or one of them is refused. -/
theorem readHeaders_headers (more : List Header) (headers : List Text) (rest : Text) :
    readHeaders headers (more.flatMap Header.text ++ rest) =
      if ∀ h ∈ more, (∀ c ∈ h.name, serverToken c = true) ∧
          ∀ f ∈ h.folds, (continuation f).isSome = true then
        readHeaders (headers ++ more.map Header.joined) rest
      else .refused := by
  induction more generalizing headers with
  | nil => simp
  | cons h more ih =>
    have hline : '\n' ∉ h.name ++ ':' :: h.value := by
      simp [isTokenChar_not_newline h.name_token, h.value_line]
    rw [List.flatMap_cons, Header.text, List.append_assoc, List.append_assoc,
      readHeaders_line hline, takeLine]
    by_cases hname : ∀ c ∈ h.name, serverToken c = true
    · rw [headerLine_of_name h.name_ne_nil hname (by decide)]
      simp only
      rw [readHeaders_folds h.folds h.folds_line, ih]
      by_cases hfolds : ∀ f ∈ h.folds, (continuation f).isSome = true
      · have hmore : (∀ x ∈ h :: more, (∀ c ∈ x.name, serverToken c = true) ∧
            ∀ f ∈ x.folds, (continuation f).isSome = true) ↔
              ∀ x ∈ more, (∀ c ∈ x.name, serverToken c = true) ∧
                ∀ f ∈ x.folds, (continuation f).isSome = true := by
          rw [List.forall_mem_cons]
          exact and_iff_right ⟨hname, hfolds⟩
        rw [if_pos hfolds, if_congr hmore rfl rfl, List.append_assoc]
        rfl
      · rw [if_neg hfolds, if_neg]
        exact fun hall => hfolds (hall h List.mem_cons_self).2
    · obtain ⟨c, hc, hctoken⟩ : ∃ c ∈ h.name, serverToken c = false := by simpa using hname
      have hcont : continuation (h.name ++ ':' :: h.value) = none := by
        obtain ⟨d, name, hd⟩ := List.exists_cons_of_ne_nil h.name_ne_nil
        rw [hd]
        exact continuation_of_not_space
          (isTokenChar_not_space (h.name_token d (hd ▸ List.mem_cons_self)))
      rw [headerLine_eq_none hc hctoken h.name_token, hcont]
      simp [hname]

end Heads

/-! ### One request -/

section Loop

variable (processor : Processor)

/-- What the processor of a request leaves of the stream. -/
def Request.left (n : ℕ) (r : Request) (input : Text) : Text :=
  (processHttpRequest processor n r.method r.url (r.headers.map Header.joined) input).2

theorem Request.head_text (r : Request) (rest : Text) :
    r.text ++ rest = r.method ++ ' ' :: (r.url ++ ' ' :: "HTTP/1.1".toList) ++ crlf ++
      (r.headers.flatMap Header.text ++ (crlf ++ (r.body ++ rest))) := by
  have hversion : " HTTP/1.1".toList = ' ' :: "HTTP/1.1".toList := by decide
  rw [Request.text, hversion]
  simp only [List.append_assoc, List.cons_append]

/-- A plain request is dispatched, and the loop goes on with what is left; another one ends
the connection. -/
theorem processRequest_text (n : ℕ) (r : Request) (rest : Text) :
    (r.Plain → ∃ outcome, processRequest processor n (r.text ++ rest) =
      (⟨r.method, r.url, r.headers.map Header.joined, outcome,
          r.left processor n (r.body ++ rest)⟩ ::
          (processRequest processor (n + 1) (r.left processor n (r.body ++ rest))).1,
        (processRequest processor (n + 1) (r.left processor n (r.body ++ rest))).2)) ∧
    (¬ r.Plain → (processRequest processor n (r.text ++ rest)).1 = []) := by
  have hline : '\n' ∉ r.method ++ ' ' :: (r.url ++ ' ' :: "HTTP/1.1".toList) := by
    have hurl : '\n' ∉ r.url := fun h => absurd (r.url_visible _ h) (by decide)
    simp only [List.mem_append, List.mem_cons, not_or]
    exact ⟨isTokenChar_not_newline r.method_token, by decide, hurl, by decide, by decide⟩
  have hspace : (r.method ++ ' ' :: (r.url ++ ' ' :: "HTTP/1.1".toList)).all isSpace = false := by
    obtain ⟨m, method, hm⟩ := List.exists_cons_of_ne_nil r.method_ne_nil
    have := isTokenChar_not_space (r.method_token m (hm ▸ List.mem_cons_self))
    simp [hm, this]
  have hnext := nextLine_crlf hline (r.headers.flatMap Header.text ++ (crlf ++ (r.body ++ rest)))
  rw [r.head_text, processRequest]
  split
  · rename_i heq
    exact absurd (hnext.symm.trans heq) (by simp)
  rename_i line left heq
  obtain ⟨rfl, rfl⟩ := Prod.mk.inj (Option.some.inj (hnext.symm.trans heq))
  have hend : readHeaders (r.headers.map Header.joined) (crlf ++ (r.body ++ rest)) =
      .complete (r.headers.map Header.joined) (r.body ++ rest) :=
    readHeaders_line List.not_mem_nil _ _
  have hread := readHeaders_headers r.headers [] (crlf ++ (r.body ++ rest))
  rw [List.nil_append, hend] at hread
  simp only [hspace, Bool.false_eq_true, if_false, requestLine_text]
  by_cases hword : r.method.all isWord = true
  · have hplain : r.Plain ↔ ∀ h ∈ r.headers, (∀ c ∈ h.name, serverToken c = true) ∧
        ∀ f ∈ h.folds, (continuation f).isSome = true :=
      and_iff_right (List.all_eq_true.mp hword)
    simp only [hword, if_true, ne_eq, not_true_eq_false, if_false]
    constructor
    · intro h
      rw [if_pos (hplain.mp h)] at hread
      split
      · rename_i hheaders
        exact absurd (hread.symm.trans hheaders) (by simp)
      · rename_i hheaders
        exact absurd (hread.symm.trans hheaders) (by simp)
      · rename_i headers body hheaders
        obtain ⟨rfl, rfl⟩ := HeaderLines.complete.inj (hread.symm.trans hheaders)
        exact ⟨_, rfl⟩
    · intro h
      rw [if_neg (mt hplain.mpr h)] at hread
      split
      · rfl
      · rfl
      · rename_i headers body hheaders
        exact absurd (hread.symm.trans hheaders) (by simp)
  · simp only [hword]
    exact ⟨fun h => absurd (List.all_eq_true.mpr h.1) hword, fun _ => rfl⟩

theorem drop_append_eq_iff {k : ℕ} {body rest : Text} :
    (body ++ rest).drop k = rest ↔ k = body.length ∨ (rest = [] ∧ body.length ≤ k) := by
  constructor
  · intro h
    have hlen := congrArg List.length h
    rw [List.length_drop, List.length_append] at hlen
    by_cases hk : k = body.length
    · exact .inl hk
    · have hnil : rest.length = 0 := by omega
      exact .inr ⟨List.length_eq_zero_iff.mp hnil, by omega⟩
  · rintro (rfl | ⟨rfl, hk⟩)
    · simp
    · simpa using hk

theorem Request.text_ne_nil (r : Request) : r.text ≠ [] := by
  obtain ⟨m, method, hm⟩ := List.exists_cons_of_ne_nil r.method_ne_nil
  simp [Request.text, hm]

/-- The loop goes on with the next request exactly if this one is taken off the stream. -/
theorem left_eq_iff (n : ℕ) (r : Request) (more : List Request) :
    r.left processor n (r.body ++ more.flatMap Request.text) = more.flatMap Request.text ↔
      Taken processor n r more.isEmpty := by
  have hmore : more.flatMap Request.text = [] ↔ more.isEmpty = true := by
    cases more with
    | nil => simp
    | cons r more => simp [r.text_ne_nil]
  have hleft : r.left processor n (r.body ++ more.flatMap Request.text) =
      (r.body ++ more.flatMap Request.text).drop
        (((processor n r.method r.url (r.headers.map Header.joined)).map
          (bytesAsked (r.headers.map Header.joined))).getD 0) := by
    rw [Request.left, processHttpRequest]
    cases processor n r.method r.url (r.headers.map Header.joined) with
    | none => rfl
    | some actions => exact runActions_left ..
  rw [hleft, drop_append_eq_iff, hmore]
  rfl

/-- Exactly the requests are dispatched, and the loop goes on after each with the next one,
if and only if every head is plain and every body is taken off the stream. -/
theorem dispatches_iff (n : ℕ) (requests : List Request) :
    (processRequest processor n (requests.flatMap Request.text)).1.map Dispatch.request =
      expected requests ↔ AllTaken processor n requests := by
  induction requests generalizing n with
  | nil =>
    rw [List.flatMap_nil, processRequest]
    simp [nextLine, splitLine, expected, AllTaken]
  | cons r more ih =>
    obtain ⟨hplain, hnot⟩ := processRequest_text processor n r (more.flatMap Request.text)
    rw [List.flatMap_cons, expected, AllTaken, ← left_eq_iff, ← ih]
    by_cases h : r.Plain
    · obtain ⟨outcome, heq⟩ := hplain h
      rw [heq, List.map_cons, List.cons.injEq]
      simp only [Dispatch.request, Prod.mk.injEq, true_and, h]
      constructor
      · rintro ⟨hleft, hrest⟩
        exact ⟨hleft, hleft ▸ hrest⟩
      · rintro ⟨hleft, hrest⟩
        exact ⟨hleft, hleft.symm ▸ hrest⟩
    · rw [hnot h]
      simp [h]

/-! ### Bodies that are read, and bodies that are not -/

/-- Without a processor only an empty body is taken off the stream. -/
theorem taken_of_none {n : ℕ} {r : Request} {last : Bool}
    (h : processor n r.method r.url (r.headers.map Header.joined) = none) :
    Taken processor n r last ↔ r.body = [] := by
  have hzero : 0 = r.body.length ↔ r.body = [] := by
    rw [eq_comm, List.length_eq_zero_iff]
  simp only [Taken, h, Option.map_none, Option.getD_none, Nat.le_zero, hzero,
    List.length_eq_zero_iff]
  tauto

theorem Header.joined_eq (h : Header) : ∃ value, h.joined = h.name ++ ':' :: value ∧
    (h.folds = [] → value = trim h.value) := by
  have hfold : ∀ (folds : List Text) (value : Text), ∃ more,
      folds.foldl (fun header f => header ++ ' ' :: trim f) (headerText h.name value) =
        h.name ++ ':' :: (value ++ more) ∧ (folds = [] → more = []) := by
    intro folds
    induction folds with
    | nil => exact fun value => ⟨[], by simp [headerText], fun _ => rfl⟩
    | cons f folds ih =>
      intro value
      obtain ⟨more, hmore, -⟩ := ih (value ++ ' ' :: trim f)
      refine ⟨' ' :: trim f ++ more, ?_, by simp⟩
      have happend : headerText h.name value ++ ' ' :: trim f =
          headerText h.name (value ++ ' ' :: trim f) := by
        simp [headerText]
      rw [List.foldl_cons, happend, hmore, List.append_assoc]
  obtain ⟨more, hmore, hnil⟩ := hfold h.folds (trim h.value)
  exact ⟨trim h.value ++ more, hmore, fun h => by rw [hnil h, List.append_nil]⟩

/-- With the name written as the server looks for it, the length is found. -/
theorem headerLookup_length (r : Request) {h : Header} (hh : h ∈ r.headers)
    (hname : h.name = "Content-Length".toList) :
    ∃ len, headerLookup (r.headers.map Header.joined) "Content-Length".toList = some len ∧
      len ≠ [] ∧ number len = r.body.length := by
  have hvalue : ∀ x ∈ r.headers, ∀ len, headerValue "Content-Length".toList x.joined = some len →
      len ≠ [] ∧ number len = r.body.length := by
    intro x hx len hlen
    obtain ⟨value, hjoined, hval⟩ := x.joined_eq
    by_cases hxname : x.name = "Content-Length".toList
    · have hlength : x.IsLength := by
        rw [Header.IsLength, hxname]
        decide
      obtain ⟨hfolds, hne, hdigits, hnumber⟩ := r.length_eq x hx hlength
      rw [hjoined, hxname, headerValue_self, hval hfolds] at hlen
      obtain ⟨c, v, hcv⟩ := List.exists_cons_of_ne_nil hne
      have hleft : trimLeft (trim x.value) = trim x.value := by
        rw [hcv]
        exact trimLeft_cons_of_not (isDigit_not_space (hdigits c (hcv ▸ List.mem_cons_self)))
      rw [hleft] at hlen
      exact Option.some.inj hlen ▸ ⟨hne, hnumber⟩
    · rw [hjoined, headerValue_other (by decide) x.name_token hxname] at hlen
      exact absurd hlen (by simp)
  cases hfound : headerLookup (r.headers.map Header.joined) "Content-Length".toList with
  | none =>
    rw [headerLookup, List.findSome?_eq_none_iff] at hfound
    obtain ⟨value, hjoined, -⟩ := h.joined_eq
    have := hfound _ (List.mem_map_of_mem hh)
    rw [hjoined, hname, headerValue_self] at this
    exact absurd this (by simp)
  | some len =>
    obtain ⟨header, hheader, hlen⟩ := List.exists_of_findSome?_eq_some hfound
    obtain ⟨x, hx, rfl⟩ := List.mem_map.mp hheader
    exact ⟨len, rfl, hvalue x hx len hlen⟩

/-- A processor that reads the body once, and does not try again, takes it off the stream. -/
theorem taken_of_save {n : ℕ} {r : Request} {last : Bool} {h : Header} {rest : List Action}
    (hh : h ∈ r.headers) (hname : h.name = "Content-Length".toList)
    (hactions : processor n r.method r.url (r.headers.map Header.joined) =
      some (.save true none :: rest))
    (hrest : bytesAsked (r.headers.map Header.joined) rest = 0) :
    Taken processor n r last := by
  obtain ⟨len, hlen, -, hnumber⟩ := headerLookup_length r hh hname
  refine .inl ?_
  simp only [hactions, Option.map_some, Option.getD_some, bytesAsked, hrest, saveBytes, hlen,
    hnumber]
  simp

end Loop

theorem no_folds : ∀ f ∈ ([] : List Text), '\n' ∉ f ∧ f.head?.any isSpace = true := by simp

/-- A request whose body is another request, to a path that nothing is registered for. -/
def smugglingRequest : Request where
  method := "POST".toList
  url := "/nowhere".toList
  headers := [⟨"Content-Length".toList, " 26".toList, [], contentLength_ne_nil,
    contentLength_token, by decide, no_folds⟩]
  body := "GET /vm_start HTTP/1.1\r\n\r\n".toList
  method_ne_nil := by decide
  method_token := List.all_eq_true.mp (by decide)
  url_ne_nil := by decide
  url_visible c hc := by
    have hall : "/nowhere".toList.all (!isSpace ·) = true := by decide
    simpa using List.all_eq_true.mp hall c hc
  length_eq h hh _ := by
    rw [List.mem_singleton.mp hh]
    exact ⟨rfl, by decide, List.all_eq_true.mp (by decide), by decide⟩
  length_of_body := fun _ => ⟨_, List.mem_cons_self, by decide⟩

theorem body_dispatched :
    ¬ ∀ (processor : Processor) (requests : List Request),
      (processRequest processor 0 (requests.flatMap Request.text)).1.map Dispatch.request =
        expected requests := by
  intro h
  have hrun := h (fun _ _ _ _ => none) [smugglingRequest]
  obtain ⟨hplain, -⟩ := processRequest_text (fun _ _ _ _ => none) 0 smugglingRequest []
  have hall : smugglingRequest.Plain := by
    refine ⟨List.all_eq_true.mp (by decide), fun h hh => ?_⟩
    rw [List.mem_singleton.mp hh]
    exact ⟨List.all_eq_true.mp (by decide), by simp⟩
  obtain ⟨outcome, heq⟩ := hplain hall
  rw [List.flatMap_singleton, ← List.append_nil smugglingRequest.text, heq, List.map_cons] at hrun
  have hleft : smugglingRequest.left (fun _ _ _ _ => none) 0 (smugglingRequest.body ++ []) = [] :=
    congrArg (fun d => d.2.2.2) (List.cons.inj hrun).1
  exact absurd hleft (by decide)

end Qvd.HttpdRequests
