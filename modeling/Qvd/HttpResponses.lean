import Qvd.HttpHeads

/-!
The head of an HTTP response, written by the server and read by the client. Header lines go
out through a pattern that is meant to take them apart at their line breaks; a value with a
line break inside does not match it, and an empty line ends the head in its place.
-/
namespace Qvd.HttpResponses

open Qvd.LineText Qvd.HttpHeads

/-! ### The server -/

/-- `%msg`. -/
def statusMessages : List (ℕ × String) :=
  [(100, "Continue"), (101, "Switching Protocols"), (102, "Processing"), (200, "OK"),
    (201, "Created"), (202, "Accepted"), (203, "Non-Authoritative Information"),
    (204, "No Content"), (205, "Reset Content"), (206, "Partial Content"),
    (207, "Multi-Status"), (300, "Multiple Choices"), (301, "Moved Permanently"),
    (302, "Found"), (303, "See Other"), (304, "Not Modified"), (305, "Use Proxy"),
    (306, "Switch Proxy"), (307, "Temporary Redirect"), (400, "Bad Request"),
    (401, "Unauthorized"), (402, "Payment Required"), (403, "Forbidden"), (404, "Not Found"),
    (405, "Method Not Allowed"), (406, "Not Acceptable"),
    (407, "Proxy Authentication Required"), (408, "Request Timeout"), (409, "Conflict"),
    (410, "Gone"), (411, "Length Required"), (412, "Precondition Failed"),
    (413, "Request Entity Too Large"), (414, "Request-URI Too Long"),
    (415, "Unsupported Media Type"), (416, "Requested Range Not Satisfiable"),
    (417, "Expectation Failed"), (422, "Unprocessable Entity"), (423, "Locked"),
    (424, "Failed Dependency"), (425, "Unordered Collection"), (426, "Upgrade Required"),
    (449, "Retry With"), (500, "Internal Server Error"), (501, "Not Implemented"),
    (502, "Bad Gateway"), (503, "Service Unavailable"), (504, "Gateway Timeout"),
    (505, "HTTP Version Not Supported"), (506, "Variant Also Negotiates"),
    (507, "Insufficient Storage"), (509, "Bandwidth Limit Exceeded"), (510, "Not Extended"),
    (651, "HTTP Version Not Supported By Client"), (652, "Bad Response")]

def httpStatusMessage (code : ℕ) : Text :=
  match statusMessages.find? fun m => m.1 == code with
  | some m => m.2.toList
  | none => Nat.toDigits 10 code ++ " Unknown error".toList

/-- The matches of `/^(.*)$/g`: without `/m` the whole text, but for a line feed at its end,
or none. -/
def matchLines (s : Text) : List Text :=
  if '\n' ∉ s then [s]
  else if '\n' ∉ s.dropLast then [s.dropLast]
  else []

def crlf : Text := ['\r', '\n']

/-- One line of the head, folded where it has several. -/
def headerField (header : Text) : Text := (crlf ++ [' ', ' ']).intercalate (matchLines header)

/-- `"HTTP/1.1 $code ". http_status_message($code)`. -/
def statusText (code : ℕ) : Text :=
  "HTTP/1.1".toList ++ ' ' :: (Nat.toDigits 10 code ++ ' ' :: httpStatusMessage code)

/-- `send_http_response`. -/
def sendHttpResponse (code : ℕ) (headers : List Text) : Text :=
  crlf.intercalate (statusText code :: (headers.map headerField ++ [[], []]))

/-- `send_http_response_with_body`. -/
def sendHttpResponseWithBody (code : ℕ) (contentType : Text) (headers : List Text)
    (content : Text) : Text :=
  sendHttpResponse code (headers ++ ["Content-Type: ".toList ++ contentType,
    "Content-Length: ".toList ++ Nat.toDigits 10 content.length]) ++ content

/-! ### The client -/

inductive HeadError
  | badResponse
  | versionNotSupportedByClient
  | closed
  deriving DecidableEq, Repr

/-- What a line does to the headers read so far; `none` where it is not a header line. -/
def takeLine (headers : List Text) (line : Text) : Option (List Text) :=
  let pushed := (headerLine clientToken line).map fun h => headers ++ [headerText h.1 h.2]
  match continuation line with
  | some text => continueHeader (pushed.getD headers) text
  | none => pushed

def readHeaders (headers : List Text) (bin : Text) : Except HeadError (List Text × Text) :=
  match _h : splitLine bin with
  | none => .error .closed
  | some (raw, rest) =>
    if dropCr raw = [] then .ok (headers, rest)
    else
      match takeLine headers (dropCr raw) with
      | none => .error .badResponse
      | some headers => readHeaders headers rest
termination_by bin.length
decreasing_by exact length_of_splitLine (by assumption)

/-- `m{^(HTTP/\S+)\s+(\d+)(?:\s+(\S.*?))?\s*$}`. -/
def statusLine (line : Text) : Option (Text × Text × Option Text) :=
  let version := line.takeWhile (!isSpace ·)
  let number := trimLeft (line.dropWhile (!isSpace ·))
  let code := number.takeWhile Char.isDigit
  let tail := number.dropWhile Char.isDigit
  if "HTTP/".toList.isPrefixOf version && 5 < version.length && !code.isEmpty &&
      tail.head?.all isSpace then
    some (version, code, if (trim tail).isEmpty then none else some (trim tail))
  else none

structure ResponseHead where
  code : Text
  message : Option Text
  headers : List Text
  deriving DecidableEq, Repr

/-- `read_http_response_head`, with what is left in the buffer. -/
def readHttpResponseHead (bin : Text) : Except HeadError (ResponseHead × Text) :=
  match _h : splitLine bin with
  | none => .error .closed
  | some (raw, rest) =>
    if (dropCr raw).all isSpace then readHttpResponseHead rest
    else
      match statusLine (dropCr raw) with
      | none => .error .badResponse
      | some (version, code, message) =>
        if version = "HTTP/1.1".toList then
          (readHeaders [] rest).map fun r => (⟨code, message, r.1⟩, r.2)
        else .error .versionNotSupportedByClient
termination_by bin.length
decreasing_by exact length_of_splitLine (by assumption)

/-- `read_http_response`: the body is read where its length is true. -/
def readHttpResponse (bin : Text) : Except HeadError (ResponseHead × Option Text × Text) := do
  let (head, rest) ← readHttpResponseHead bin
  match headerLookup head.headers "Content-Length".toList with
  | none => return (head, none, rest)
  | some len =>
    if len = [] ∨ len = ['0'] then return (head, none, rest)
    else if rest.length < number len then throw .closed
    else return (head, some (rest.take (number len)), rest.drop (number len))

/-! ### Headers -/

/-- A header as the caller means it: a token for a name, any text for a value. -/
structure Header where
  name : Text
  value : Text
  name_ne_nil : name ≠ []
  name_token : ∀ c ∈ name, isTokenChar c = true

/-- The string that the caller passes. -/
def Header.text (h : Header) : Text := h.name ++ ':' :: ' ' :: h.value

/-- The lines of a value joined, each without the white space around it. -/
def joinLines (value : Text) : Text := [' '].intercalate ((lines value).map trim)

/-- The header as the client is to report it. -/
def Header.joined (h : Header) : Text := headerText h.name (joinLines h.value)

/-- The name is made of the characters the client takes for a token, and the value has no
line feed but at its end. -/
def Header.Plain (h : Header) : Prop :=
  (∀ c ∈ h.name, clientToken c = true) ∧ '\n' ∉ h.value.dropLast

/-! ### One line at a time -/

section Reading

variable {line rest : Text} {headers : List Text}

theorem readHeaders_line (hline : '\n' ∉ line) (headers : List Text) (rest : Text) :
    readHeaders headers (line ++ crlf ++ rest) =
      if line = [] then .ok (headers, rest)
      else match takeLine headers line with
        | none => .error .badResponse
        | some headers => readHeaders headers rest := by
  have hsplit : splitLine (line ++ crlf ++ rest) = some (line ++ ['\r'], rest) := by
    have happend : line ++ crlf ++ rest = (line ++ ['\r']) ++ '\n' :: rest := by simp [crlf]
    rw [happend, splitLine_append (by simp [hline])]
  rw [readHeaders]
  split
  · rename_i heq
    exact absurd (hsplit.symm.trans heq) (by simp)
  · rename_i heq
    obtain ⟨rfl, rfl⟩ := Prod.mk.inj (Option.some.inj (hsplit.symm.trans heq))
    rw [dropCr_append]

theorem readHttpResponseHead_line (hline : '\n' ∉ line) (hspace : line.all isSpace = false)
    (rest : Text) :
    readHttpResponseHead (line ++ crlf ++ rest) =
      match statusLine line with
      | none => .error .badResponse
      | some (version, code, message) =>
        if version = "HTTP/1.1".toList then
          (readHeaders [] rest).map fun r => (⟨code, message, r.1⟩, r.2)
        else .error .versionNotSupportedByClient := by
  have hsplit : splitLine (line ++ crlf ++ rest) = some (line ++ ['\r'], rest) := by
    have happend : line ++ crlf ++ rest = (line ++ ['\r']) ++ '\n' :: rest := by simp [crlf]
    rw [happend, splitLine_append (by simp [hline])]
  rw [readHttpResponseHead]
  split
  · rename_i heq
    exact absurd (hsplit.symm.trans heq) (by simp)
  · rename_i heq
    obtain ⟨rfl, rfl⟩ := Prod.mk.inj (Option.some.inj (hsplit.symm.trans heq))
    simp only [dropCr_append, hspace, Bool.false_eq_true, if_false]

end Reading

/-! ### The status line -/

theorem toDigits_digits (code : ℕ) : ∀ c ∈ Nat.toDigits 10 code, c.isDigit = true :=
  fun _ hc => Nat.isDigit_of_mem_toDigits (by decide) (by decide) hc

theorem statusMessages_text : ∀ m ∈ statusMessages, '\n' ∉ m.2.toList ∧
    m.2.toList.head?.all (!isSpace ·) ∧ m.2.toList.getLast?.all (!isSpace ·) ∧
      m.2.toList ≠ [] := by
  decide +kernel

/-- A status message is one line, without white space at its ends. -/
theorem httpStatusMessage_text (code : ℕ) : '\n' ∉ httpStatusMessage code ∧
    trim (httpStatusMessage code) = httpStatusMessage code ∧ httpStatusMessage code ≠ [] := by
  have htrim : ∀ s : Text, s.head?.all (!isSpace ·) = true → s.getLast?.all (!isSpace ·) = true →
      trim s = s := by
    intro s hhead hlast
    refine trim_eq_self (fun c hc => ?_) (fun c hc => ?_)
    · simpa [hc] using hhead
    · simpa [hc] using hlast
  rw [httpStatusMessage]
  split
  · rename_i m hm
    obtain ⟨hline, hhead, hlast, hne⟩ := statusMessages_text m (List.mem_of_find?_eq_some hm)
    exact ⟨hline, htrim _ hhead hlast, hne⟩
  · have hdigits := toDigits_digits code
    refine ⟨?_, htrim _ ?_ ?_, ?_⟩
    · simp only [List.mem_append, not_or]
      refine ⟨fun h => ?_, by decide⟩
      exact absurd (hdigits _ h) (by decide)
    · cases hd : Nat.toDigits 10 code with
      | nil => simp at hd
      | cons c cs => simp [isDigit_not_space (hdigits c (hd ▸ List.mem_cons_self))]
    · have hlast : " Unknown error".toList.getLast? = some 'r' := by decide
      rw [List.getLast?_append, hlast, Option.some_or]
      decide
    · simp

theorem statusLine_text {code message : Text} (hcode : ∀ c ∈ code, c.isDigit = true)
    (hne : code ≠ []) (htrim : trim message = message) (hmessage : message ≠ []) :
    statusLine ("HTTP/1.1".toList ++ ' ' :: (code ++ ' ' :: message)) =
      some ("HTTP/1.1".toList, code, some message) := by
  have hleft : trimLeft (' ' :: (code ++ ' ' :: message)) = code ++ ' ' :: message := by
    obtain ⟨c, code, rfl⟩ := List.exists_cons_of_ne_nil hne
    rw [trimLeft_cons_of_space (by decide)]
    exact trimLeft_cons_of_not (isDigit_not_space (hcode c List.mem_cons_self))
  have hversion : ∀ rest : Text, ("HTTP/1.1".toList ++ ' ' :: rest).takeWhile (!isSpace ·) =
      "HTTP/1.1".toList ∧ ("HTTP/1.1".toList ++ ' ' :: rest).dropWhile (!isSpace ·) =
      ' ' :: rest :=
    fun rest => takeWhile_append_of_all _ (List.all_eq_true.mp (by decide))
      (by rintro c ⟨rfl⟩; decide)
  have hnumber := takeWhile_append_of_all (' ' :: message) hcode (by rintro c ⟨rfl⟩; decide)
  have htail : trim (' ' :: message) = message := by
    rw [trim_cons_of_space (by decide), htrim]
  rw [statusLine, (hversion _).1, (hversion _).2, hleft]
  simp only [hnumber.1, hnumber.2, htail]
  rw [if_pos, if_neg]
  · simpa using hmessage
  · simp [hne, isSpace]

theorem statusLine_statusText (code : ℕ) :
    statusLine (statusText code) =
      some ("HTTP/1.1".toList, Nat.toDigits 10 code, some (httpStatusMessage code)) := by
  obtain ⟨-, htrim, hne⟩ := httpStatusMessage_text code
  exact statusLine_text (toDigits_digits code) (by simp) htrim hne

/-! ### The headers -/

section Headers

theorem intercalate_cons (sep first : Text) (fields : List Text) :
    sep.intercalate (first :: (fields ++ [[], []])) =
      first ++ sep ++ fields.flatMap (· ++ sep) ++ sep := by
  induction fields generalizing first with
  | nil => simp [List.intercalate]
  | cons field fields ih =>
    have hcons : sep.intercalate (first :: field :: (fields ++ [[], []])) =
        first ++ sep ++ sep.intercalate (field :: (fields ++ [[], []])) := by
      simp [List.intercalate]
    rw [List.cons_append, hcons, ih]
    simp [List.append_assoc]

theorem sendHttpResponse_eq (code : ℕ) (headers : List Text) :
    sendHttpResponse code headers =
      statusText code ++ crlf ++ (headers.map headerField).flatMap (· ++ crlf) ++ crlf :=
  intercalate_cons crlf (statusText code) (headers.map headerField)

variable {h : Header}

theorem Header.mem_text (h : Header) : '\n' ∈ h.text ↔ '\n' ∈ h.value := by
  simp [Header.text, isTokenChar_not_newline h.name_token]

theorem Header.dropLast_text (hv : h.value ≠ []) :
    h.text.dropLast = h.name ++ ':' :: ' ' :: h.value.dropLast := by
  rw [Header.text, List.dropLast_append_of_ne_nil (by simp)]
  obtain ⟨c, v, hcv⟩ := List.exists_cons_of_ne_nil hv
  simp [hcv]

/-- A value with a line break inside takes its whole header out of the head. -/
theorem headerField_of_mem (hv : '\n' ∈ h.value.dropLast) : headerField h.text = [] := by
  have hne : h.value ≠ [] := by
    rintro hnil
    simp [hnil] at hv
  have hmem : '\n' ∈ h.text := h.mem_text.mpr ((List.dropLast_sublist _).mem hv)
  have hlast : '\n' ∈ h.text.dropLast := by
    rw [h.dropLast_text hne]
    simp [hv]
  simp [headerField, matchLines, hmem, hlast, List.intercalate]

/-- Otherwise the line has the value without a line feed at its end. -/
theorem headerField_of_not_mem (hv : '\n' ∉ h.value.dropLast) :
    ∃ v, '\n' ∉ v ∧ headerField h.text = h.name ++ ':' :: ' ' :: v ∧
      joinLines h.value = trim v := by
  have hone : ∀ s : Text, (crlf ++ [' ', ' ']).intercalate [s] = s := by
    intro s
    simp [List.intercalate]
  by_cases hmem : '\n' ∈ h.value
  · have hne : h.value ≠ [] := by
      rintro hnil
      simp [hnil] at hmem
    have hvalue : h.value = h.value.dropLast ++ ['\n'] := by
      have hsplit := List.dropLast_append_getLast hne
      have hlast : h.value.getLast hne = '\n' := by
        rw [← hsplit, List.mem_append, List.mem_singleton] at hmem
        exact (hmem.resolve_left hv).symm
      rw [← hlast, hsplit]
    have htext : '\n' ∉ h.text.dropLast := by
      rw [h.dropLast_text hne]
      simp [hv, isTokenChar_not_newline h.name_token]
    refine ⟨h.value.dropLast, hv, ?_, ?_⟩
    · rw [headerField, matchLines, if_neg (by simp [h.mem_text, hmem]), if_pos htext, hone,
        h.dropLast_text hne]
    · rw [hvalue, joinLines, lines_line_feed hv]
      simp [List.intercalate]
  · refine ⟨h.value, hmem, ?_, ?_⟩
    · rw [headerField, matchLines, if_pos (by simp [h.mem_text, hmem]), hone, Header.text]
    · cases hvalue : h.value with
      | nil => simp [joinLines, lines, List.intercalate, trim, trimLeft, trimRight]
      | cons c v =>
        rw [joinLines, lines_of_not_mem (hvalue ▸ hmem) (List.cons_ne_nil _ _)]
        simp [List.intercalate]

/-- The line of a plain header adds it as the client is to report it. -/
theorem takeLine_plain {v : Text} (hname : ∀ c ∈ h.name, clientToken c = true)
    (headers : List Text) :
    takeLine headers (h.name ++ ':' :: ' ' :: v) = some (headers ++ [headerText h.name (trim v)]) := by
  obtain ⟨c, name, hc⟩ := List.exists_cons_of_ne_nil h.name_ne_nil
  have hspace : isSpace c = false :=
    isTokenChar_not_space (h.name_token c (hc ▸ List.mem_cons_self))
  have hcont : continuation (h.name ++ ':' :: ' ' :: v) = none := by
    rw [hc]
    exact continuation_of_not_space hspace
  rw [takeLine, hcont, headerLine_of_name h.name_ne_nil hname (by decide),
    trim_cons_of_space (by decide)]
  rfl

/-- The line of a header with another name is refused. -/
theorem takeLine_other {v : Text} {c : Char} (hc : c ∈ h.name) (hctoken : clientToken c = false)
    (headers : List Text) : takeLine headers (h.name ++ ':' :: ' ' :: v) = none := by
  obtain ⟨d, name, hd⟩ := List.exists_cons_of_ne_nil h.name_ne_nil
  have hspace : isSpace d = false :=
    isTokenChar_not_space (h.name_token d (hd ▸ List.mem_cons_self))
  have hcont : continuation (h.name ++ ':' :: ' ' :: v) = none := by
    rw [hd]
    exact continuation_of_not_space hspace
  rw [takeLine, hcont, headerLine_eq_none hc hctoken h.name_token]
  rfl

/-- The header lines read back as the headers exactly if all of these are plain. -/
theorem readHeaders_iff (headers : List Header) (read : List Text) (body : Text) :
    readHeaders read (((headers.map Header.text).map headerField).flatMap (· ++ crlf) ++ crlf ++
      body) = .ok (read ++ headers.map Header.joined, body) ↔ ∀ h ∈ headers, h.Plain := by
  induction headers generalizing read with
  | nil =>
    have hend := readHeaders_line List.not_mem_nil read body
    rw [if_pos rfl] at hend
    simpa using hend
  | cons h headers ih =>
    simp only [List.map_cons, List.flatMap_cons, List.append_assoc, List.forall_mem_cons]
    rw [← List.append_assoc (headerField h.text), ← List.append_assoc (List.flatMap _ _)]
    by_cases hvalue : '\n' ∈ h.value.dropLast
    · rw [headerField_of_mem hvalue, readHeaders_line (by simp), if_pos rfl]
      simp [Header.Plain, hvalue]
    · obtain ⟨v, hv, hfield, hjoin⟩ := headerField_of_not_mem hvalue
      have hline : '\n' ∉ h.name ++ ':' :: ' ' :: v := by
        simp [hv, isTokenChar_not_newline h.name_token]
      have hne : h.name ++ ':' :: ' ' :: v ≠ [] := by simp
      rw [hfield, readHeaders_line hline, if_neg hne]
      by_cases hname : ∀ c ∈ h.name, clientToken c = true
      · have ih := ih (read ++ [h.joined])
        rw [List.append_assoc read, List.singleton_append] at ih
        rw [takeLine_plain hname, ← hjoin]
        have hplain : h.Plain := ⟨hname, hvalue⟩
        simp only [hplain, true_and]
        exact ih
      · have hbad : ∃ c ∈ h.name, clientToken c = false := by
          simpa using hname
        obtain ⟨c, hc, hctoken⟩ := hbad
        rw [takeLine_other hc hctoken]
        simp [Header.Plain, hname]

end Headers

/-! ### The head as a whole -/

theorem statusLine_line {code message : Text} (hcode : '\n' ∉ code) (hmessage : '\n' ∉ message) :
    '\n' ∉ "HTTP/1.1".toList ++ ' ' :: (code ++ ' ' :: message) ∧
      ("HTTP/1.1".toList ++ ' ' :: (code ++ ' ' :: message)).all isSpace = false := by
  constructor
  · simp only [List.mem_append, List.mem_cons, not_or]
    exact ⟨by decide, by decide, hcode, by decide, hmessage⟩
  · exact List.all_eq_false.mpr ⟨'H', List.mem_append_left _ (by decide), by decide⟩

theorem statusText_line (code : ℕ) :
    '\n' ∉ statusText code ∧ (statusText code).all isSpace = false :=
  statusLine_line (fun h => absurd (toDigits_digits code _ h) (by decide))
    (httpStatusMessage_text code).1

/-- The client gets past the status line that the server writes. -/
theorem readHttpResponseHead_send (code : ℕ) (headers : List Text) (body : Text) :
    readHttpResponseHead (sendHttpResponse code headers ++ body) =
      (readHeaders [] ((headers.map headerField).flatMap (· ++ crlf) ++ crlf ++ body)).map
        fun r => (⟨Nat.toDigits 10 code, some (httpStatusMessage code), r.1⟩, r.2) := by
  obtain ⟨hline, hspace⟩ := statusText_line code
  rw [sendHttpResponse_eq, List.append_assoc, List.append_assoc,
    readHttpResponseHead_line hline hspace, statusLine_statusText, List.append_assoc]
  rfl

theorem map_eq_ok_iff {r : Except HeadError (List Text × Text)} {code : Text}
    {message : Option Text} {headers : List Text} {rest : Text} :
    (r.map fun r => ((⟨code, message, r.1⟩ : ResponseHead), r.2)) =
      .ok (⟨code, message, headers⟩, rest) ↔ r = .ok (headers, rest) := by
  cases r with
  | error e => simp [Except.map]
  | ok r => simp [Except.map, Prod.ext_iff]

/-- A response reads back as it was meant, up to the end of its head, exactly if its headers
are plain. -/
theorem response_head_iff (code : ℕ) (headers : List Header) (body : Text) :
    readHttpResponseHead (sendHttpResponse code (headers.map Header.text) ++ body) =
        .ok (⟨Nat.toDigits 10 code, some (httpStatusMessage code),
          headers.map Header.joined⟩, body) ↔
      ∀ h ∈ headers, h.Plain := by
  rw [readHttpResponseHead_send, map_eq_ok_iff]
  exact readHeaders_iff headers [] body

/-- An error text in two lines: its header is lost and the one after it opens the body. -/
def brokenHeaders : List Header :=
  [⟨"X-Reason".toList, "no disk\nleft".toList, by decide, List.all_eq_true.mp (by decide)⟩,
    ⟨"Retry-After".toList, "5".toList, by decide, List.all_eq_true.mp (by decide)⟩]

theorem broken_value_ends_head :
    ¬ ∀ (code : ℕ) (headers : List Header) (body : Text),
      readHttpResponseHead (sendHttpResponse code (headers.map Header.text) ++ body) =
        .ok (⟨Nat.toDigits 10 code, some (httpStatusMessage code),
          headers.map Header.joined⟩, body) := by
  intro h
  have hread := h 503 brokenHeaders []
  rw [readHttpResponseHead_send, map_eq_ok_iff] at hread
  have hplain := (readHeaders_iff brokenHeaders [] []).mp hread _ List.mem_cons_self
  exact absurd hplain.2 (by decide)

/-! ### Responses with a body -/

def contentTypeHeader (contentType : Text) : Header :=
  ⟨"Content-Type".toList, contentType, by decide, List.all_eq_true.mp (by decide)⟩

def contentLengthHeader (length : ℕ) : Header :=
  ⟨"Content-Length".toList, Nat.toDigits 10 length, contentLength_ne_nil, contentLength_token⟩

theorem contentLengthHeader_plain (length : ℕ) : (contentLengthHeader length).Plain := by
  refine ⟨List.all_eq_true.mp (show "Content-Length".toList.all clientToken = true by decide),
    fun h => ?_⟩
  exact absurd (toDigits_digits length _ ((List.dropLast_sublist _).mem h)) (by decide)

/-- The same for a response with a body: what is left after the head is the content. -/
theorem response_with_body_iff (code : ℕ) (contentType : Text) (headers : List Header)
    (content : Text) :
    readHttpResponseHead
        (sendHttpResponseWithBody code contentType (headers.map Header.text) content) =
      .ok (⟨Nat.toDigits 10 code, some (httpStatusMessage code),
        (headers ++ [contentTypeHeader contentType,
          contentLengthHeader content.length]).map Header.joined⟩, content) ↔
      (∀ h ∈ headers, h.Plain) ∧ '\n' ∉ contentType.dropLast := by
  have htexts : headers.map Header.text ++ ["Content-Type: ".toList ++ contentType,
      "Content-Length: ".toList ++ Nat.toDigits 10 content.length] =
      (headers ++ [contentTypeHeader contentType,
        contentLengthHeader content.length]).map Header.text := by
    rw [List.map_append]
    rfl
  rw [sendHttpResponseWithBody, htexts, readHttpResponseHead_send, map_eq_ok_iff]
  refine (readHeaders_iff _ [] content).trans ?_
  have htype : (contentTypeHeader contentType).Plain ↔ '\n' ∉ contentType.dropLast :=
    ⟨fun h => h.2, fun h =>
      ⟨List.all_eq_true.mp (show "Content-Type".toList.all clientToken = true by decide), h⟩⟩
  simp only [List.forall_mem_append, List.forall_mem_cons, htype, contentLengthHeader_plain,
    List.not_mem_nil, false_imp_iff, implies_true, and_true]

theorem joinLines_toDigits (n : ℕ) : joinLines (Nat.toDigits 10 n) = Nat.toDigits 10 n := by
  have hdigits := toDigits_digits n
  have hline : '\n' ∉ Nat.toDigits 10 n := fun h => absurd (hdigits _ h) (by decide)
  have htrim : trim (Nat.toDigits 10 n) = Nat.toDigits 10 n :=
    trim_eq_self (fun c hc => isDigit_not_space (hdigits c (List.mem_of_mem_head? hc)))
      (fun c hc => isDigit_not_space (hdigits c (List.mem_of_mem_getLast? hc)))
  rw [joinLines, lines_of_not_mem hline (by simp)]
  simp [htrim]

theorem number_toDigits (n : ℕ) : number (Nat.toDigits 10 n) = n := by
  have htake : (Nat.toDigits 10 n).takeWhile Char.isDigit = Nat.toDigits 10 n :=
    List.takeWhile_eq_self_iff.mpr (toDigits_digits n)
  rw [number, htake, Nat.ofDigitChars_toDigits (by decide) (by decide)]

/-- The client finds the length that the server announced. -/
theorem headerLookup_contentLength (contentType : Text) (length : ℕ) :
    headerLookup ([contentTypeHeader contentType, contentLengthHeader length].map Header.joined)
      "Content-Length".toList = some (Nat.toDigits 10 length) := by
  have htype : headerValue "Content-Length".toList (contentTypeHeader contentType).joined = none :=
    headerValue_other (by decide) (contentTypeHeader contentType).name_token
      (show "Content-Type".toList ≠ "Content-Length".toList by decide)
  have hdigits : trimLeft (Nat.toDigits 10 length) = Nat.toDigits 10 length := by
    obtain ⟨c, digits, hc⟩ := List.exists_cons_of_ne_nil (Nat.toDigits_ne_nil (n := length) (b := 10))
    rw [hc]
    exact trimLeft_cons_of_not
      (isDigit_not_space (toDigits_digits length c (by rw [hc]; exact List.mem_cons_self)))
  have hlength : headerValue "Content-Length".toList (contentLengthHeader length).joined =
      some (Nat.toDigits 10 length) := by
    have hjoined : (contentLengthHeader length).joined =
        "Content-Length".toList ++ ':' :: Nat.toDigits 10 length :=
      congrArg (fun value => "Content-Length".toList ++ ':' :: value) (joinLines_toDigits length)
    rw [hjoined, headerValue_self, hdigits]
  rw [headerLookup, List.map_cons, List.findSome?_cons, htype]
  dsimp only
  rw [List.map_cons, List.findSome?_cons, hlength]

/-- The client reads a response with a body up to its last byte. -/
theorem readHttpResponse_with_body (code : ℕ) {contentType : Text}
    (htype : '\n' ∉ contentType.dropLast) (content : Text) :
    readHttpResponse (sendHttpResponseWithBody code contentType [] content) =
      .ok (⟨Nat.toDigits 10 code, some (httpStatusMessage code),
          [contentTypeHeader contentType, contentLengthHeader content.length].map Header.joined⟩,
        if content = [] then none else some content, []) := by
  have hhead := (response_with_body_iff code contentType [] content).mpr ⟨by simp, htype⟩
  have hlookup := headerLookup_contentLength contentType content.length
  rw [List.map_nil, List.nil_append] at hhead
  rw [readHttpResponse, hhead]
  simp only [bind, Except.bind]
  rw [hlookup]
  by_cases hnil : content = []
  · subst hnil
    rfl
  · have hlen : ¬ (Nat.toDigits 10 content.length = [] ∨ Nat.toDigits 10 content.length = ['0']) := by
      rintro (h | h)
      · simp at h
      · have hzero : content.length = 0 := by
          rw [← number_toDigits content.length, h]
          decide
        exact hnil (List.length_eq_zero_iff.mp hzero)
    simp only [if_neg hlen, number_toDigits, lt_irrefl, if_false, List.take_length,
      List.drop_length, if_neg hnil]
    rfl

end Qvd.HttpResponses
