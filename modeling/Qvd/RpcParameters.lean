import Qvd.HttpResponses
import Qvd.HttpdRequests
import Qvd.UriText

/-!
Remote calls over HTTP: the two clients that write the parameters into a query, the server
that takes them out again, and the answer on its way back. The packages underneath are
parameters with what their documentation promises.
-/
namespace Qvd.RpcParameters

open Qvd.LineText Qvd.HttpHeads Qvd.UriText

/-! ### The packages underneath -/

/-- Characters that no version of `uri_escape` escapes, or that some do not. -/
def isUnreserved (c : Char) : Bool := c.isAlphanum || "-._~!*'()".toList.contains c

/-- `URI::Escape`: what is not unreserved goes into percent codes, and decoding undoes it. -/
structure UriEscape where
  escape : Text → Text
  safe : ∀ s, IsBytes s → ∀ c ∈ escape s, isUnreserved c = true ∨ c = '%'
  decode : ∀ s, IsBytes s → percentDecode (escape s) = s

/-- A path that is not taken for an authority, up to its query. -/
structure IsPath (path : Text) : Prop where
  head : path.head? = some '/'
  single : path.tail.head? ≠ some '/'
  chars : ∀ c ∈ path, c ≠ '?' ∧ c ≠ '#'

/-- `URI::Split`, of which the path and the query are used. -/
structure UriSplit where
  split : Text → Text × Option Text
  split_path : ∀ path, IsPath path → split path = (path, none)
  split_query : ∀ path query, IsPath path → '#' ∉ query →
    split (path ++ '?' :: query) = (path, some query)

/-- `JSON`: texts for values, and the array that a text between brackets stands for. -/
structure JsonCodec (J : Type) where
  encode : J → Text
  decode : Text → Option (List J)
  emptyString : J
  decode_value : ∀ v, decode ('[' :: (encode v ++ "\r\n".toList) ++ [']']) = some [v]
  decode_error : ∀ e, decode ('[' :: ("\"\",".toList ++ encode e ++ "\r\n".toList) ++ [']']) =
    some [emptyString, e]

/-- `http_get`: the bytes it sends for a URL are a request for its path and query. -/
structure HttpGet where
  sent : Text → Text
  sent_request : ∀ authority target : Text, '/' ∉ authority → target.head? = some '/' →
    (∀ c ∈ target, isSpace c = false ∧ c ≠ '#') →
    ∃ r : HttpdRequests.Request, sent ("http://".toList ++ authority ++ target) = r.text ∧
      r.method = "GET".toList ∧ r.url = target ∧ r.Plain ∧ r.body = []

/-! ### The clients -/

def queryText (uri : UriEscape) (pairs : List (Text × Text)) : Text :=
  if pairs.isEmpty then []
  else '?' :: ['&'].intercalate (pairs.map fun p => uri.escape p.1 ++ '=' :: uri.escape p.2)

/-- The URL of `_make_request`. -/
def makeRequestUrl (uri : UriEscape) (base method : Text) (pairs : List (Text × Text)) : Text :=
  base ++ method ++ queryText uri pairs

/-- `__make_simplerpc_url`. -/
def makeSimplerpcUrl (uri : UriEscape) (service method : Text) (pairs : List (Text × Text)) :
    Text :=
  service ++ '/' :: method ++ queryText uri pairs

/-- `send_http_request`, for a request without parameters or body of its own. -/
def sendHttpRequest (agent method url : Text) : Text :=
  HttpdRequests.crlf.intercalate
    [method ++ ' ' :: url ++ " HTTP/1.1".toList, "User-Agent".toList ++ ':' :: ' ' :: agent, [], []]

/-! ### The server -/

def uriUnescapePlus (s : Text) : Text :=
  percentDecode (s.map fun c => if c = '+' then ' ' else c)

/-- The captures of `/^(.*?)(?:=(.*))?$/`, none for a text that is not one line. -/
def queryField (field : Text) : List (Option Text) :=
  (HttpResponses.matchLines field).flatMap fun line =>
    [some (line.takeWhile (· != '=')), (line.dropWhile (· != '=')).tail?]

def uriQuerySplit : Option Text → List (Option Text)
  | none => []
  | some query => ((splitFields '&' query).flatMap queryField).map (Option.map uriUnescapePlus)

/-- `/(\w+)$/`. -/
def rpcFunction (path : Text) : Option Text :=
  let function := path.rtakeWhile isWord
  if function.isEmpty then none else some function

/-- The function and the parameters that `_process_request` takes from a request. -/
def rpcCall (uri : UriSplit) (method url : Text) : Option (Text × List (Option Text)) :=
  if method = "GET".toList then
    (rpcFunction (uri.split url).1).map fun f => (f, uriQuerySplit (uri.split url).2)
  else none

/-- What `die` leaves in `$@`, which is true: a value that JSON takes, or an object that it
refuses, with its text. -/
inductive Exception (J : Type)
  | value (e : J)
  | object (text : Text)

inductive MethodOutcome (J : Type)
  | returned (v : J)
  | died (e : Exception J)

/-- The reply to a call. An object that JSON refuses makes the server fail. -/
def rpcReply {J : Type} (json : JsonCodec J) : MethodOutcome J → Text
  | .returned v => HttpResponses.sendHttpResponseWithBody 200 "application/json-simplerpc".toList []
      (json.encode v ++ "\r\n".toList)
  | .died (.value e) =>
    HttpResponses.sendHttpResponseWithBody 200 "application/json-simplerpc".toList []
      ("\"\",".toList ++ json.encode e ++ "\r\n".toList)
  | .died (.object text) =>
    HttpResponses.sendHttpResponseWithBody 500 "text/plain".toList [] text

/-- The calls among the requests of a connection. -/
def calls (uri : UriSplit) (input : Text) : List (Text × List (Option Text)) :=
  (HttpdRequests.processRequest (fun _ _ _ _ => some [.other]) 0 input).1.filterMap fun d =>
    rpcCall uri d.method d.url

section Methods

variable {J : Type}

/-- The methods of a server by name. -/
abbrev Methods (J : Type) := Text → Option (List (Option Text) → MethodOutcome J)

/-- The bytes that come back over the connection. -/
def replies (uri : UriSplit) (json : JsonCodec J) (methods : Methods J) (input : Text) : Text :=
  (calls uri input).flatMap fun call =>
    match methods call.1 with
    | some m => rpcReply json (m call.2)
    | none => []

inductive CallResult (J : Type)
  | returned (v : Option J)
  | died

/-- What `_make_request` makes of the answer. -/
def readReply (json : JsonCodec J) (bin : Text) : CallResult J :=
  match HttpResponses.readHttpResponse bin with
  | .error _ => .died
  | .ok (head, body, _) =>
    if number head.code = 200 then
      match json.decode ('[' :: body.getD [] ++ [']']) with
      | none => .died
      | some data => if 2 ≤ data.length then .died else .returned data.head?
    else .died

/-- `_make_request` against a server. -/
def makeRequest (uri : UriEscape) (split : UriSplit) (json : JsonCodec J) (agent base : Text)
    (methods : Methods J) (method : Text) (pairs : List (Text × Text)) : CallResult J :=
  readReply json
    (replies split json methods
      (sendHttpRequest agent "GET".toList (makeRequestUrl uri base method pairs)))

end Methods

/-! ### The query -/

section Query

variable (uri : UriEscape)

/-- The characters of an escaped text are none of those that mean something in a URL. -/
theorem escape_plain {s : Text} (hs : IsBytes s) : ∀ c ∈ uri.escape s,
    c ≠ '&' ∧ c ≠ '=' ∧ c ≠ '+' ∧ c ≠ '#' ∧ c ≠ '?' ∧ isSpace c = false := by
  have hall : ∀ c : Char, c = '&' ∨ c = '=' ∨ c = '+' ∨ c = '#' ∨ c = '?' ∨ isSpace c = true →
      isUnreserved c = false ∧ c ≠ '%' := by
    intro c hc
    simp only [isSpace, Bool.or_eq_true, beq_iff_eq, or_assoc] at hc
    rcases hc with rfl | rfl | rfl | rfl | rfl | rfl | rfl | rfl | rfl | rfl | rfl <;> decide
  intro c hc
  by_contra hno
  have hbad : c = '&' ∨ c = '=' ∨ c = '+' ∨ c = '#' ∨ c = '?' ∨ isSpace c = true := by
    by_contra h
    simp only [not_or, Bool.not_eq_true] at h
    exact hno h
  obtain ⟨hkeep, hpercent⟩ := hall c hbad
  rcases uri.safe s hs c hc with h | h
  · simp [hkeep] at h
  · exact hpercent h

theorem escape_not_mem {s : Text} (hs : IsBytes s) : '&' ∉ uri.escape s ∧ '=' ∉ uri.escape s ∧
    '\n' ∉ uri.escape s :=
  ⟨fun h => (escape_plain uri hs _ h).1 rfl, fun h => (escape_plain uri hs _ h).2.1 rfl,
    fun h => absurd (escape_plain uri hs _ h).2.2.2.2.2 (by decide)⟩

theorem uriUnescapePlus_escape {s : Text} (hs : IsBytes s) :
    uriUnescapePlus (uri.escape s) = s := by
  have hmap : (uri.escape s).map (fun c => if c = '+' then ' ' else c) = uri.escape s := by
    refine (List.map_congr_left fun c hc => ?_).trans (List.map_id _)
    exact if_neg (escape_plain uri hs c hc).2.2.1
  rw [uriUnescapePlus, hmap, uri.decode s hs]

/-- One pair, from its field in the query. -/
theorem queryField_pair {key value : Text} (hk : IsBytes key) (hv : IsBytes value) :
    (queryField (uri.escape key ++ '=' :: uri.escape value)).map (Option.map uriUnescapePlus) =
      [some key, some value] := by
  obtain ⟨-, hkeq, hkline⟩ := escape_not_mem uri hk
  obtain ⟨-, -, hvline⟩ := escape_not_mem uri hv
  have hline : '\n' ∉ uri.escape key ++ '=' :: uri.escape value := by
    simp [hkline, hvline]
  obtain ⟨htake, hdrop⟩ := takeWhile_append_of_all ('=' :: uri.escape value)
    (show ∀ c ∈ uri.escape key, (c != '=') = true by
      intro c hc
      simpa using fun h : c = '=' => hkeq (h ▸ hc))
    (by rintro c ⟨rfl⟩; decide)
  rw [queryField, HttpResponses.matchLines, if_pos hline]
  simp [htake, hdrop, uriUnescapePlus_escape uri hk, uriUnescapePlus_escape uri hv]

/-- Bytes in all the keys and values. -/
def BytePairs (pairs : List (Text × Text)) : Prop := ∀ p ∈ pairs, IsBytes p.1 ∧ IsBytes p.2

/-- The parameters that stand for the pairs. -/
def paramsOf (pairs : List (Text × Text)) : List (Option Text) :=
  pairs.flatMap fun p => [some p.1, some p.2]

/-- The query is taken apart into the pairs it was made of. -/
theorem uriQuerySplit_fields {pairs : List (Text × Text)} (h : BytePairs pairs) :
    uriQuerySplit (some (['&'].intercalate
      (pairs.map fun p => uri.escape p.1 ++ '=' :: uri.escape p.2))) = paramsOf pairs := by
  rw [uriQuerySplit, splitFields_intercalate]
  · induction pairs with
    | nil => rfl
    | cons p pairs ih =>
      obtain ⟨⟨hk, hv⟩, hrest⟩ := List.forall_mem_cons.mp h
      rw [List.map_cons, List.flatMap_cons, List.map_append, queryField_pair uri hk hv, ih hrest]
      rfl
  · intro f hf
    obtain ⟨p, hp, rfl⟩ := List.mem_map.mp hf
    obtain ⟨hk, hv⟩ := h p hp
    exact ⟨by simp [(escape_not_mem uri hk).1, (escape_not_mem uri hv).1], by simp⟩

/-- What stands after a path for the pairs is visible and opens no fragment. -/
theorem queryText_chars {pairs : List (Text × Text)} (h : BytePairs pairs) :
    ∀ c ∈ queryText uri pairs, isSpace c = false ∧ c ≠ '#' := by
  have hfields : ∀ c ∈ ['&'].intercalate
      (pairs.map fun p => uri.escape p.1 ++ '=' :: uri.escape p.2), isSpace c = false ∧ c ≠ '#' := by
    intro c hc
    rcases mem_intercalate hc with rfl | ⟨f, hf, hc⟩
    · decide
    · obtain ⟨p, hp, rfl⟩ := List.mem_map.mp hf
      obtain ⟨hk, hv⟩ := h p hp
      rcases List.mem_append.mp hc with hc | hc
      · have hplain := escape_plain uri hk c hc
        exact ⟨hplain.2.2.2.2.2, hplain.2.2.2.1⟩
      · rcases List.mem_cons.mp hc with rfl | hc
        · decide
        · have hplain := escape_plain uri hv c hc
          exact ⟨hplain.2.2.2.2.2, hplain.2.2.2.1⟩
  intro c hc
  rw [queryText] at hc
  split at hc
  · simp at hc
  · rcases List.mem_cons.mp hc with rfl | hc
    · decide
    · exact hfields c hc

end Query

/-! ### The call as the server sees it -/

/-- The path that a server is called under: absolute, and ended by a slash. -/
structure IsBase (base : Text) : Prop extends IsPath base where
  last : base.getLast? = some '/'
  visible : ∀ c ∈ base, isSpace c = false

/-- The name of a method. -/
def IsMethod (method : Text) : Prop := method ≠ [] ∧ ∀ c ∈ method, isWord c = true

section Calls

variable (uri : UriEscape) (split : UriSplit) {base method : Text} {pairs : List (Text × Text)}

theorem isWord_plain {c : Char} (h : isWord c = true) :
    c ≠ '/' ∧ c ≠ '?' ∧ c ≠ '#' ∧ isSpace c = false := by
  refine ⟨?_, ?_, ?_, ?_⟩
  · rintro rfl
    exact absurd h (by decide)
  · rintro rfl
    exact absurd h (by decide)
  · rintro rfl
    exact absurd h (by decide)
  · by_contra hs
    have hs : isSpace c = true := by simpa using hs
    simp only [isSpace, Bool.or_eq_true, beq_iff_eq] at hs
    rcases hs with ((((rfl | rfl) | rfl) | rfl) | rfl) | rfl <;> exact absurd h (by decide)

theorem IsBase.path_method (hbase : IsBase base) (hmethod : IsMethod method) :
    IsPath (base ++ method) := by
  obtain ⟨c, rest, rfl⟩ : ∃ c rest, base = c :: rest := by
    cases base with
    | nil => exact absurd hbase.head (by simp)
    | cons c rest => exact ⟨c, rest, rfl⟩
  obtain ⟨m, name, rfl⟩ := List.exists_cons_of_ne_nil hmethod.1
  constructor
  · simpa using hbase.head
  · cases rest with
    | nil => simpa using (isWord_plain (hmethod.2 m List.mem_cons_self)).1
    | cons d rest => simpa using hbase.single
  · intro d hd
    rcases List.mem_append.mp hd with hd | hd
    · exact hbase.chars d hd
    · have hplain := isWord_plain (hmethod.2 d hd)
      exact ⟨hplain.2.1, hplain.2.2.1⟩

theorem rpcFunction_path (hbase : IsBase base) (hmethod : IsMethod method) :
    rpcFunction (base ++ method) = some method := by
  have hsplit : base = base.dropLast ++ ['/'] := by
    have hne : base ≠ [] := by
      rintro rfl
      exact absurd hbase.last (by simp)
    have hlast := hbase.last
    rw [List.getLast?_eq_getLast_of_ne_nil hne, Option.some.injEq] at hlast
    rw [← hlast, List.dropLast_append_getLast]
  have htake : (base ++ method).rtakeWhile isWord = method := by
    rw [List.rtakeWhile, List.reverse_append, hsplit, List.reverse_append]
    have hrev := takeWhile_append_of_all (['/'].reverse ++ base.dropLast.reverse)
      (show ∀ c ∈ method.reverse, isWord c = true by simpa using hmethod.2)
      (by rintro c ⟨rfl⟩; decide)
    rw [hrev.1, List.reverse_reverse]
  simp [rpcFunction, htake, hmethod.1]

/-- The server finds the method and the pairs in the target of the request. -/
theorem rpcCall_target (hbase : IsBase base) (hmethod : IsMethod method)
    (hpairs : BytePairs pairs) :
    rpcCall split "GET".toList (base ++ method ++ queryText uri pairs) =
      some (method, paramsOf pairs) := by
  have hpath := hbase.path_method hmethod
  rw [rpcCall, if_pos rfl]
  cases hp : pairs with
  | nil =>
    have hquery : queryText uri [] = [] := rfl
    rw [hquery, List.append_nil, split.split_path _ hpath, rpcFunction_path hbase hmethod]
    rfl
  | cons p rest =>
    rw [← hp]
    have hquery : queryText uri pairs = '?' :: ['&'].intercalate
        (pairs.map fun p => uri.escape p.1 ++ '=' :: uri.escape p.2) := by
      simp [queryText, hp]
    have hfragment : '#' ∉ ['&'].intercalate
        (pairs.map fun p => uri.escape p.1 ++ '=' :: uri.escape p.2) := by
      intro h
      have := queryText_chars uri hpairs '#' (by rw [hquery]; exact List.mem_cons_of_mem _ h)
      exact this.2 rfl
    rw [hquery, split.split_query _ _ hpath hfragment, rpcFunction_path hbase hmethod,
      uriQuerySplit_fields uri hpairs]
    rfl

/-- A request without a body is one call. -/
theorem calls_text {r : HttpdRequests.Request} (hplain : r.Plain) (hbody : r.body = []) :
    calls split r.text = (rpcCall split r.method r.url).toList := by
  obtain ⟨outcome, heq⟩ :=
    (HttpdRequests.processRequest_text (fun _ _ _ _ => some [.other]) 0 r []).1 hplain
  have hleft : r.left (fun _ _ _ _ => some [.other]) 0 (r.body ++ []) = [] := by
    rw [hbody]
    rfl
  have hend : HttpdRequests.processRequest (fun _ _ _ _ => some [.other]) 1 [] = ([], .closed) := by
    rw [HttpdRequests.processRequest]
    rfl
  rw [List.append_nil, hleft] at heq
  rw [calls, heq, hend, List.filterMap_cons, List.filterMap_nil]
  cases hcall : rpcCall split r.method r.url with
  | none => rfl
  | some call => rfl

theorem target_chars (hbase : IsBase base) (hmethod : IsMethod method)
    (hpairs : BytePairs pairs) :
    ∀ c ∈ base ++ method ++ queryText uri pairs, isSpace c = false ∧ c ≠ '#' := by
  intro c hc
  rcases List.mem_append.mp hc with hc | hc
  · rcases List.mem_append.mp hc with hc | hc
    · exact ⟨hbase.visible c hc, (hbase.chars c hc).2⟩
    · have hplain := isWord_plain (hmethod.2 c hc)
      exact ⟨hplain.2.2.2, hplain.2.2.1⟩
  · exact queryText_chars uri hpairs c hc

def agentHeader (agent : Text) (hagent : '\n' ∉ agent) : HttpdRequests.Header :=
  ⟨"User-Agent".toList, ' ' :: agent, [], by decide, List.all_eq_true.mp (by decide),
    by simp [hagent], HttpdRequests.no_folds⟩

theorem agentHeader_not_length {agent : Text} (hagent : '\n' ∉ agent) :
    ¬ (agentHeader agent hagent).IsLength :=
  show ¬ "User-Agent".toList.map Char.toLower = "content-length".toList by decide

/-- The request that `send_http_request` writes. -/
def agentRequest (agent url : Text) (hagent : '\n' ∉ agent) (hne : url ≠ [])
    (hurl : ∀ c ∈ url, isSpace c = false) : HttpdRequests.Request where
  method := "GET".toList
  url := url
  headers := [agentHeader agent hagent]
  body := []
  method_ne_nil := by decide
  method_token := List.all_eq_true.mp (by decide)
  url_ne_nil := hne
  url_visible := hurl
  length_eq h hh hlength := by
    rw [List.mem_singleton.mp hh] at hlength
    exact absurd hlength (agentHeader_not_length hagent)
  length_of_body h := absurd rfl h

theorem agentHeader_plain {agent : Text} (hagent : '\n' ∉ agent) :
    (∀ c ∈ (agentHeader agent hagent).name, serverToken c = true) ∧
      ∀ f ∈ (agentHeader agent hagent).folds, (continuation f).isSome = true :=
  ⟨List.all_eq_true.mp (show "User-Agent".toList.all serverToken = true by decide),
    fun _ h => by cases h⟩

theorem agentRequest_plain {agent url : Text} (hagent : '\n' ∉ agent) (hne : url ≠ [])
    (hurl : ∀ c ∈ url, isSpace c = false) : (agentRequest agent url hagent hne hurl).Plain := by
  constructor
  · exact List.all_eq_true.mp (show "GET".toList.all isWord = true by decide)
  · intro h hh
    have hh : h ∈ [agentHeader agent hagent] := hh
    rw [List.mem_singleton] at hh
    rw [hh]
    exact agentHeader_plain hagent

theorem agentRequest_text {agent url : Text} (hagent : '\n' ∉ agent) (hne : url ≠ [])
    (hurl : ∀ c ∈ url, isSpace c = false) :
    (agentRequest agent url hagent hne hurl).text = sendHttpRequest agent "GET".toList url := by
  have htext : (agentHeader agent hagent).text =
      "User-Agent".toList ++ ':' :: ' ' :: agent ++ HttpdRequests.crlf ++ [] := rfl
  have heq : (agentRequest agent url hagent hne hurl).text =
      "GET".toList ++ ' ' :: url ++ " HTTP/1.1".toList ++ HttpdRequests.crlf ++
        [agentHeader agent hagent].flatMap HttpdRequests.Header.text ++ HttpdRequests.crlf ++ [] :=
    rfl
  rw [heq, List.flatMap_singleton, htext, sendHttpRequest]
  simp only [List.intercalate_cons_cons, List.intercalate_singleton, List.append_assoc,
    List.append_nil, List.nil_append]

end Calls

/-! ### The answer -/

section Answers

variable {J : Type} (json : JsonCodec J)

/-- What the client makes of a reply with a body that JSON reads. -/
theorem readReply_json {body : Text} {data : List J} (hne : body ≠ [])
    (hdecode : json.decode ('[' :: body ++ [']']) = some data) :
    readReply json (HttpResponses.sendHttpResponseWithBody 200
        "application/json-simplerpc".toList [] body) =
      if 2 ≤ data.length then .died else .returned data.head? := by
  have hok : number (Nat.toDigits 10 200) = 200 := HttpResponses.number_toDigits 200
  have htype : '\n' ∉ "application/json-simplerpc".toList.dropLast := by decide
  rw [readReply, HttpResponses.readHttpResponse_with_body _ htype]
  dsimp only
  rw [if_pos hok, if_neg hne, Option.getD_some, hdecode]

theorem readReply_error (text : Text) :
    readReply json (HttpResponses.sendHttpResponseWithBody 500 "text/plain".toList [] text) =
      .died := by
  have herror : number (Nat.toDigits 10 500) = 500 := HttpResponses.number_toDigits 500
  have htype : '\n' ∉ "text/plain".toList.dropLast := by decide
  rw [readReply, HttpResponses.readHttpResponse_with_body _ htype]
  dsimp only
  rw [if_neg (by rw [herror]; decide)]

/-- The client returns what the method returned, and dies if the method died. -/
theorem readReply_rpcReply (outcome : MethodOutcome J) :
    readReply json (rpcReply json outcome) =
      match outcome with
      | .returned v => .returned (some v)
      | .died _ => .died := by
  have hcrlf : "\r\n".toList ≠ [] := by decide
  cases outcome with
  | returned v =>
    rw [rpcReply, readReply_json json (by simp) (json.decode_value v)]
    rfl
  | died e =>
    cases e with
    | value e =>
      rw [rpcReply, readReply_json json (by simp) (json.decode_error e)]
      rfl
    | object text => exact readReply_error json text

end Answers

/-! ### The round trip -/

section RoundTrip

variable {J : Type} (uri : UriEscape) (split : UriSplit) (json : JsonCodec J) (get : HttpGet)

/-- The method gets the pairs that the caller passed, from either client; the caller gets
what the method returned, and dies exactly if the method died. -/
theorem rpc_round_trip {base method authority agent : Text} {pairs : List (Text × Text)}
    (hbase : IsBase base) (hmethod : IsMethod method) (hpairs : BytePairs pairs)
    (hagent : '\n' ∉ agent) (hauthority : '/' ∉ authority)
    {methods : Methods J} {m : List (Option Text) → MethodOutcome J}
    (hm : methods method = some m) :
    calls split (sendHttpRequest agent "GET".toList (makeRequestUrl uri base method pairs)) =
        [(method, paramsOf pairs)] ∧
      calls split (get.sent (makeSimplerpcUrl uri
        ("http://".toList ++ authority ++ base.dropLast) method pairs)) =
          [(method, paramsOf pairs)] ∧
      makeRequest uri split json agent base methods method pairs =
        match m (paramsOf pairs) with
        | .returned v => .returned (some v)
        | .died _ => .died := by
  have hchars := target_chars uri hbase hmethod hpairs
  have hne : base ++ method ++ queryText uri pairs ≠ [] := by simp [hmethod.1]
  have hcall := rpcCall_target uri split hbase hmethod hpairs
  have hclient : calls split
      (sendHttpRequest agent "GET".toList (makeRequestUrl uri base method pairs)) =
        [(method, paramsOf pairs)] := by
    have hvisible : ∀ c ∈ base ++ method ++ queryText uri pairs, isSpace c = false :=
      fun c hc => (hchars c hc).1
    rw [makeRequestUrl, ← agentRequest_text hagent hne hvisible,
      calls_text split (agentRequest_plain hagent hne hvisible) rfl]
    exact congrArg Option.toList hcall
  refine ⟨hclient, ?_, ?_⟩
  · have hsplit : base.dropLast ++ ['/'] = base := by
      have hnil : base ≠ [] := by
        rintro rfl
        exact absurd hbase.last (by simp)
      have hlast := hbase.last
      rw [List.getLast?_eq_getLast_of_ne_nil hnil, Option.some.injEq] at hlast
      rw [← hlast, List.dropLast_append_getLast]
    have hurl : makeSimplerpcUrl uri ("http://".toList ++ authority ++ base.dropLast) method pairs =
        "http://".toList ++ authority ++ (base ++ method ++ queryText uri pairs) := by
      rw [makeSimplerpcUrl]
      conv_rhs => rw [← hsplit]
      simp only [List.append_assoc, List.cons_append, List.nil_append]
    have hhead : (base ++ method ++ queryText uri pairs).head? = some '/' := by
      rw [List.append_assoc, List.head?_append, hbase.head]
      rfl
    obtain ⟨r, hsent, hrmethod, hrurl, hplain, hbody⟩ :=
      get.sent_request authority _ hauthority hhead hchars
    rw [hurl, hsent, calls_text split hplain hbody, hrmethod, hrurl, hcall]
    rfl
  · rw [makeRequest, replies, hclient, List.flatMap_singleton]
    dsimp only
    rw [hm]
    exact readReply_rpcReply json (m (paramsOf pairs))

end RoundTrip

/-! ### Packages to run it with -/

/-- Percent codes for all but the unreserved characters. -/
def percentEscape : UriEscape where
  escape := percentEncode isUnreserved
  safe s hs c hc := by
    have hdigits : ∀ n < 16, isUnreserved (hexDigit n) = true := by decide
    rcases mem_percentEncode hs hc with h | rfl | ⟨n, hn, rfl⟩
    · exact .inl h
    · exact .inr rfl
    · exact .inl (hdigits n hn)
  decode s hs := percentDecode_percentEncode (by decide) hs

/-- The path up to the first question mark or number sign, and the query after the former. -/
def splitAtQuery : UriSplit where
  split url :=
    match url.dropWhile (fun c => c != '?' && c != '#') with
    | '?' :: query => (url.takeWhile (fun c => c != '?' && c != '#'),
        some (query.takeWhile (· != '#')))
    | _ => (url.takeWhile (fun c => c != '?' && c != '#'), none)
  split_path path h := by
    have hall := takeWhile_append_of_all [] (show ∀ c ∈ path, (c != '?' && c != '#') = true by
      intro c hc
      simp [h.chars c hc]) (by simp)
    rw [List.append_nil] at hall
    simp only [hall.1, hall.2]
  split_query path query h hquery := by
    have hall := takeWhile_append_of_all ('?' :: query)
      (show ∀ c ∈ path, (c != '?' && c != '#') = true by
        intro c hc
        simp [h.chars c hc]) (by rintro c ⟨rfl⟩; decide)
    have hfragment : query.takeWhile (· != '#') = query := by
      refine List.takeWhile_eq_self_iff.mpr fun c hc => ?_
      simpa using fun h : c = '#' => hquery (h ▸ hc)
    simp only [hall.1, hall.2, hfragment]

/-- Three values of JSON. -/
inductive Flag
  | empty | yes | no
  deriving DecidableEq, Repr

def Flag.text : Flag → Text
  | .empty => "\"\"".toList
  | .yes => "true".toList
  | .no => "false".toList

def flagJson : JsonCodec Flag where
  encode := Flag.text
  decode s :=
    [Flag.empty, .yes, .no].findSome? fun v =>
      if s = '[' :: (v.text ++ "\r\n".toList) ++ [']'] then some [v]
      else if s = '[' :: ("\"\",".toList ++ v.text ++ "\r\n".toList) ++ [']'] then some [.empty, v]
      else none
  emptyString := .empty
  decode_value v := by cases v <;> decide
  decode_error e := by cases e <;> decide

/-- A client that sends no other header than its name. -/
def plainGet : HttpGet where
  sent url := sendHttpRequest "AnyEvent-HTTP".toList "GET".toList
    ((url.drop 7).dropWhile (· != '/'))
  sent_request authority target hauthority hhead htarget := by
    have hne : target ≠ [] := by
      rintro rfl
      exact absurd hhead (by simp)
    have hagent : '\n' ∉ "AnyEvent-HTTP".toList := by decide
    have hvisible : ∀ c ∈ target, isSpace c = false := fun c hc => (htarget c hc).1
    have hdrop : ((("http://".toList ++ authority ++ target).drop 7).dropWhile (· != '/')) =
        target := by
      rw [List.append_assoc, List.drop_append_of_le_length (by decide)]
      have hall := takeWhile_append_of_all target
        (show ∀ c ∈ authority, (c != '/') = true by
          intro c hc
          simpa using fun h : c = '/' => hauthority (h ▸ hc))
        (by intro c hc; rw [hhead] at hc; obtain rfl := Option.some.inj hc; decide)
      exact hall.2
    refine ⟨agentRequest "AnyEvent-HTTP".toList target hagent hne hvisible, ?_, rfl, rfl,
      agentRequest_plain hagent hne hvisible, rfl⟩
    rw [hdrop, agentRequest_text]

/-- Every method answers yes. -/
def acceptAll : Methods Flag := fun _ => some fun _ => .returned .yes

/-- A call with separators in a value and an empty pair. -/
theorem rpc_round_trip_separators :
    calls splitAtQuery (sendHttpRequest "QVD::HTTPC".toList "GET".toList
        (makeRequestUrl percentEscape "/vma/".toList "connect".toList
          [("user".toList, "a+b &c=%20".toList), ([], [])])) =
        [("connect".toList, paramsOf [("user".toList, "a+b &c=%20".toList), ([], [])])] ∧
      calls splitAtQuery (plainGet.sent (makeSimplerpcUrl percentEscape
        ("http://".toList ++ "10.3.15.4:3030".toList ++ "/vma/".toList.dropLast) "connect".toList
          [("user".toList, "a+b &c=%20".toList), ([], [])])) =
        [("connect".toList, paramsOf [("user".toList, "a+b &c=%20".toList), ([], [])])] ∧
      makeRequest percentEscape splitAtQuery flagJson "QVD::HTTPC".toList "/vma/".toList
        acceptAll "connect".toList
          [("user".toList, "a+b &c=%20".toList), ([], [])] = .returned (some .yes) := by
  have hchars : ∀ c ∈ "/vma/".toList, c ≠ '?' ∧ c ≠ '#' := by simp
  have hvisible : ∀ c ∈ "/vma/".toList, isSpace c = false := by
    have hall : "/vma/".toList.all (!isSpace ·) = true := by decide
    simpa using List.all_eq_true.mp hall
  have hbase : IsBase "/vma/".toList := ⟨⟨by decide, by decide, hchars⟩, by decide, hvisible⟩
  have hmethod : IsMethod "connect".toList := ⟨by decide, List.all_eq_true.mp (by decide)⟩
  have hpairs : BytePairs [("user".toList, "a+b &c=%20".toList), ([], [])] := by
    have hbytes : ∀ s : Text, s.all (fun c => decide (c.toNat < 256)) = true → IsBytes s :=
      fun s h c hc => of_decide_eq_true (List.all_eq_true.mp h c hc)
    simp only [BytePairs, List.forall_mem_cons]
    exact ⟨⟨hbytes _ (by decide), hbytes _ (by decide)⟩, ⟨hbytes _ rfl, hbytes _ rfl⟩, by simp⟩
  have hagent : '\n' ∉ "QVD::HTTPC".toList := by decide
  have hauthority : '/' ∉ "10.3.15.4:3030".toList := by decide
  have hm : acceptAll "connect".toList = some fun _ => .returned .yes := rfl
  exact rpc_round_trip percentEscape splitAtQuery flagJson plainGet hbase hmethod hpairs
    hagent hauthority hm

end Qvd.RpcParameters
