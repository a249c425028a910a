import Qvd.HttpResponses
import Qvd.HttpcReads

/-!
Responses read from a socket: `_readline`, `read_http_response_head` and `read_http_response` of the
client while the bytes of its peer arrive piece by piece. However they arrive, the client has made
of them what is in them, and it has left alone what comes after the response.
-/
namespace Qvd.ResponseReads

open LineText HttpHeads HttpResponses HttpcReads

/-- The bytes as the patterns see them. -/
def text (bytes : List Byte) : Text := bytes.map fun b => Char.ofNat b.toNat

/-- How a call stands after the turns it was given; a call that returns leaves the rest of them to
the next one. -/
inductive Reply (α : Type) where
  | value (a : α) (c : Client) (rest : List Turn)
  | died (d : Death) (t : Turn) (c : Client)
  | waiting (c : Client)

/-! ### The calls -/

section Calls

variable (ssl : Bool)

/-- `_sysread`, with the turns it does not need. -/
def fill (length : ℕ) (c : Client) : List Turn → Reply Unit
  | [] => if length ≤ c.bin.length then .value () c [] else .waiting c
  | t :: ts =>
    if length ≤ c.bin.length then .value () c (t :: ts)
    else match turn ssl length c t with
      | .ok c => fill length c ts
      | .error d => .died d t c

/-- A call of `_sysread` starts its own count of ready sockets. -/
def sysread (length : ℕ) (c : Client) (ts : List Turn) : Reply Unit :=
  fill ssl length { c with n := 0 } ts

theorem length_of_fill {length : ℕ} {c c' : Client} {ts ts' : List Turn} {u : Unit}
    (h : fill ssl length c ts = .value u c' ts') (hshort : c.bin.length < length) :
    ts'.length < ts.length := by
  have hle : ∀ (ts : List Turn) (c : Client), fill ssl length c ts = .value u c' ts' →
      ts'.length ≤ ts.length := by
    intro ts
    induction ts with
    | nil =>
      intro c h
      unfold fill at h
      split at h
      · cases h
        exact le_rfl
      · cases h
    | cons t ts ih =>
      intro c h
      unfold fill at h
      split at h
      · cases h
        exact le_rfl
      · split at h
        · exact (ih _ h).trans (Nat.le_succ _)
        · cases h
  cases ts with
  | nil =>
    rw [fill, if_neg (by omega)] at h
    cases h
  | cons t ts =>
    rw [fill, if_neg (by omega)] at h
    split at h
    · exact Nat.lt_succ_of_le (hle ts _ h)
    · cases h

theorem length_of_sysread {c c' : Client} {ts ts' : List Turn} {u : Unit}
    (h : sysread ssl (c.bin.length + 1) c ts = .value u c' ts') : ts'.length < ts.length :=
  length_of_fill ssl h (Nat.lt_succ_self c.bin.length)

/-- `_readline`: a line that is in the buffer, or else one more byte. -/
def readline (c : Client) (ts : List Turn) : Reply Text :=
  match splitLine (text c.bin) with
  | some (line, _) => .value (dropCr line) { c with bin := c.bin.drop (line.length + 1) } ts
  | none =>
    match _h : sysread ssl (c.bin.length + 1) c ts with
    | .value _ c ts => readline c ts
    | .died d t c => .died d t c
    | .waiting c => .waiting c
termination_by ts.length
decreasing_by exact length_of_sysread ssl (by assumption)

end Calls

/-! ### What a call has taken -/

/-- The reads that bring bytes. -/
def arrivals (ts : List Turn) : ℕ :=
  ts.countP fun t => match t.arrival with
    | .bytes _ => true
    | _ => false

/-- From one moment to another the client has taken some bytes of the stream, at least one in each
read that brought any. -/
structure Takes (c : Client) (ts : List Turn) (extra : List Byte) (c' : Client) (ts' : List Turn) :
    Prop where
  stream : c.stream = extra ++ c'.stream
  arrivals_le : c'.stream ≠ [] → arrivals ts ≤ arrivals ts' + extra.length

/-- A call that returns has made `done` of the bytes in its buffer and those it took, and it leaves
some of them in the buffer. A call that has not returned has taken bytes that it cannot end with,
and if it died, it had a reason to or met a stale turn. -/
def Reads {α : Type} (ssl : Bool) (c : Client) (ts : List Turn)
    (done : α → List Byte → List Byte → Prop) (more : List Byte → Prop) : Reply α → Prop
  | .value a c' ts' => ∃ extra, Takes c ts extra c' ts' ∧ done a (c.bin ++ extra) c'.bin
  | .died d t c' => ∃ extra ts', Takes c ts extra c' ts' ∧ more (c.bin ++ extra) ∧
      (Justified d t c' ∨ Stale ssl c' t)
  | .waiting c' => ∃ extra, Takes c ts extra c' [] ∧ more (c.bin ++ extra)

section Taking

variable {ssl : Bool} {c c' c'' : Client} {ts ts' ts'' : List Turn} {extra extra' : List Byte}
variable {α β : Type}

theorem Takes.refl (c : Client) (ts : List Turn) : Takes c ts [] c ts :=
  ⟨rfl, fun _ => Nat.le_add_right ..⟩

theorem Takes.trans (h : Takes c ts extra c' ts') (h' : Takes c' ts' extra' c'' ts'') :
    Takes c ts (extra ++ extra') c'' ts'' where
  stream := by rw [h.stream, h'.stream, List.append_assoc]
  arrivals_le hne := by
    have hfirst := h.arrivals_le (by rw [h'.stream]; exact List.append_ne_nil_of_right_ne_nil _ hne)
    have hsecond := h'.arrivals_le hne
    rw [List.length_append]
    omega

/-- A turn takes the bytes it adds to the buffer. -/
theorem takes_turn {length : ℕ} {t : Turn} (h : turn ssl length c t = .ok c')
    (hshort : c.bin.length < length) :
    ∃ extra, Takes c (t :: ts) extra c' ts ∧ c'.bin = c.bin ++ extra := by
  obtain ⟨hbin, hstream⟩ := turn_ok h
  refine ⟨_, ⟨by rw [hstream, List.take_append_drop], fun hne => ?_⟩, hbin⟩
  have hlength : c.stream.drop (taken length c t) ≠ [] := hstream ▸ hne
  rw [Ne, List.drop_eq_nil_iff, not_le] at hlength
  rw [arrivals, List.countP_cons, List.length_take, min_eq_left hlength.le]
  cases harrival : t.arrival with
  | bytes more =>
    have htaken : 0 < taken length c t := by
      simp only [taken, harrival]
      omega
    simp only [if_true]
    exact Nat.add_le_add_left htaken _
  | wouldBlock => exact Nat.le_add_right ..
  | wantWrite => exact Nat.le_add_right ..
  | failed => exact Nat.le_add_right ..

variable {done done' : α → List Byte → List Byte → Prop} {more more' : List Byte → Prop}

theorem Reads.mono {reply : Reply α} (h : Reads ssl c ts done more reply)
    (hdone : ∀ a received left, done a received left → done' a received left)
    (hmore : ∀ received, more received → more' received) : Reads ssl c ts done' more' reply := by
  cases reply with
  | value a c' ts' =>
    obtain ⟨extra, htakes, h⟩ := h
    exact ⟨extra, htakes, hdone _ _ _ h⟩
  | died d t c' =>
    obtain ⟨extra, ts', htakes, h, hreason⟩ := h
    exact ⟨extra, ts', htakes, hmore _ h, hreason⟩
  | waiting c' =>
    obtain ⟨extra, htakes, h⟩ := h
    exact ⟨extra, htakes, hmore _ h⟩

/-- A call after another one, on what that one has left. -/
theorem Reads.after {reply : Reply β} (htakes : Takes c ts extra c' ts') {left : List Byte}
    (hleft : c'.bin = left) {done' : β → List Byte → List Byte → Prop}
    {done : β → List Byte → List Byte → Prop} (h : Reads ssl c' ts' done' more' reply)
    (hdone : ∀ b extra' left', done' b (left ++ extra') left' →
      done b (c.bin ++ extra ++ extra') left')
    (hmore : ∀ extra', more' (left ++ extra') → more (c.bin ++ extra ++ extra')) :
    Reads ssl c ts done more reply := by
  subst hleft
  cases reply with
  | value b c'' ts'' =>
    obtain ⟨extra', htakes', h⟩ := h
    exact ⟨extra ++ extra', htakes.trans htakes', List.append_assoc .. ▸ hdone _ _ _ h⟩
  | died d t c'' =>
    obtain ⟨extra', ts'', htakes', h, hreason⟩ := h
    exact ⟨extra ++ extra', ts'', htakes.trans htakes', List.append_assoc .. ▸ hmore _ h, hreason⟩
  | waiting c'' =>
    obtain ⟨extra', htakes', h⟩ := h
    exact ⟨extra ++ extra', htakes.trans htakes', List.append_assoc .. ▸ hmore _ h⟩

end Taking

/-! ### Bytes and lines -/

section Lines

variable (ssl : Bool)

@[simp] theorem text_append (bytes more : List Byte) :
    text (bytes ++ more) = text bytes ++ text more :=
  List.map_append ..

theorem splitLine_grow {s line rest : Text} (h : splitLine s = some (line, rest)) (more : Text) :
    splitLine (s ++ more) = some (line, rest ++ more) := by
  obtain ⟨hline, rfl⟩ := splitLine_eq_some h
  rw [List.append_assoc, List.cons_append, splitLine_append hline]

/-- The bytes behind the first line are those that are left of the text. -/
theorem text_drop {bytes : List Byte} {line rest : Text}
    (h : splitLine (text bytes) = some (line, rest)) :
    text (bytes.drop (line.length + 1)) = rest := by
  obtain ⟨-, heq⟩ := splitLine_eq_some h
  rw [text, List.map_drop, show bytes.map _ = line ++ '\n' :: rest from heq, ← List.drop_drop,
    List.drop_left]
  rfl

/-- `_sysread` waits until enough bytes are in the buffer. -/
theorem fill_reads (length : ℕ) (c : Client) (ts : List Turn) :
    Reads ssl c ts (fun _ received left => left = received ∧ length ≤ received.length)
      (fun received => received.length < length) (fill ssl length c ts) := by
  induction ts generalizing c with
  | nil =>
    rw [fill]
    split
    · next h => exact ⟨[], Takes.refl c [], by simp, by simpa using h⟩
    · next h => exact ⟨[], Takes.refl c [], by simpa using h⟩
  | cons t ts ih =>
    rw [fill]
    split
    · next h => exact ⟨[], Takes.refl c _, by simp, by simpa using h⟩
    · next h =>
      cases hturn : turn ssl length c t with
      | error d =>
        refine ⟨[], t :: ts, Takes.refl c _, by simpa using h, ?_⟩
        exact (turn_error hturn).imp_right And.right
      | ok c' =>
        obtain ⟨extra, htakes, hbin⟩ : ∃ extra, Takes c (t :: ts) extra c' ts ∧ _ :=
          takes_turn hturn (by omega)
        refine Reads.after htakes hbin (ih c') (fun _ extra' left' h => h) fun extra' h => h

theorem sysread_reads (length : ℕ) (c : Client) (ts : List Turn) :
    Reads ssl c ts (fun _ received left => left = received ∧ length ≤ received.length)
      (fun received => received.length < length) (sysread ssl length c ts) := by
  have htakes : Takes c ts [] { c with n := 0 } ts := ⟨rfl, fun _ => Nat.le_add_right ..⟩
  have hfill := fill_reads ssl length { c with n := 0 } ts
  refine Reads.after htakes rfl hfill (fun _ extra' left' h => ?_) fun extra' h => ?_
  · rwa [List.append_nil]
  · rwa [List.append_nil]

/-- A call that has not brought the one byte that it waits for has brought nothing. -/
theorem splitLine_of_short {bin extra : List Byte} (hnone : splitLine (text bin) = none)
    (h : (bin ++ extra).length < bin.length + 1) : splitLine (text (bin ++ extra)) = none := by
  have hnil : extra = [] := by
    rw [List.length_append] at h
    exact List.length_eq_zero_iff.mp (by omega)
  rw [hnil, List.append_nil, hnone]

/-- `_readline` returns the first line as soon as it is there. -/
theorem readline_reads (c : Client) (ts : List Turn) :
    Reads ssl c ts (fun line received left =>
        ∃ raw, splitLine (text received) = some (raw, text left) ∧ line = dropCr raw)
      (fun received => splitLine (text received) = none) (readline ssl c ts) := by
  fun_induction readline ssl c ts with
  | case1 c ts line rest h =>
    refine ⟨[], ⟨rfl, fun _ => Nat.le_add_right ..⟩, line, ?_, rfl⟩
    rw [List.append_nil, text_drop h, h]
  | case2 c ts hnone u c' ts' h ih =>
    have hreads := sysread_reads ssl (c.bin.length + 1) c ts
    rw [h] at hreads
    obtain ⟨extra, htakes, hbin, -⟩ := hreads
    exact Reads.after htakes hbin ih (fun _ extra' left' h => h) fun extra' h => h
  | case3 c ts hnone d t c' h =>
    have hreads := sysread_reads ssl (c.bin.length + 1) c ts
    rw [h] at hreads
    obtain ⟨extra, ts', htakes, hshort, hreason⟩ := hreads
    exact ⟨extra, ts', htakes, splitLine_of_short hnone hshort, hreason⟩
  | case4 c ts hnone c' h =>
    have hreads := sysread_reads ssl (c.bin.length + 1) c ts
    rw [h] at hreads
    obtain ⟨extra, htakes, hshort⟩ := hreads
    exact ⟨extra, htakes, splitLine_of_short hnone hshort⟩

theorem length_of_readline {c c' : Client} {ts ts' : List Turn} {line : Text}
    (h : readline ssl c ts = .value line c' ts') :
    c'.bin.length + c'.stream.length < c.bin.length + c.stream.length := by
  have hreads := readline_reads ssl c ts
  rw [h] at hreads
  obtain ⟨extra, htakes, raw, hsplit, -⟩ := hreads
  have hlength := length_of_splitLine hsplit
  simp only [text, List.length_map, List.length_append] at hlength
  rw [htakes.stream, List.length_append]
  omega

end Lines

/-! ### Responses -/

section Responses

variable (ssl : Bool)

/-- The loop over the header lines. -/
def readHeaders (headers : List Text) (c : Client) (ts : List Turn) :
    Reply (Except HeadError (List Text)) :=
  match _h : readline ssl c ts with
  | .value line c ts =>
    if line = [] then .value (.ok headers) c ts
    else
      match takeLine headers line with
      | none => .value (.error .badResponse) c ts
      | some headers => readHeaders headers c ts
  | .died d t c => .died d t c
  | .waiting c => .waiting c
termination_by c.bin.length + c.stream.length
decreasing_by exact length_of_readline ssl (by assumption)

/-- `read_http_response_head`. -/
def readHttpResponseHead (c : Client) (ts : List Turn) : Reply (Except HeadError ResponseHead) :=
  match _h : readline ssl c ts with
  | .value line c ts =>
    if line.all isSpace then readHttpResponseHead c ts
    else
      match statusLine line with
      | none => .value (.error .badResponse) c ts
      | some (version, code, message) =>
        if version = "HTTP/1.1".toList then
          match readHeaders ssl [] c ts with
          | .value r c ts => .value (r.map fun headers => ⟨code, message, headers⟩) c ts
          | .died d t c => .died d t c
          | .waiting c => .waiting c
        else .value (.error .versionNotSupportedByClient) c ts
  | .died d t c => .died d t c
  | .waiting c => .waiting c
termination_by c.bin.length + c.stream.length
decreasing_by exact length_of_readline ssl (by assumption)

/-- `$content_length` where it is true. -/
def contentLength (head : ResponseHead) : Option ℕ :=
  (headerLookup head.headers "Content-Length".toList).bind fun len =>
    if len = [] ∨ len = ['0'] then none else some (number len)

/-- `read_http_response`. -/
def readHttpResponse (c : Client) (ts : List Turn) :
    Reply (Except HeadError (ResponseHead × Option Text)) :=
  match readHttpResponseHead ssl c ts with
  | .value (.ok head) c ts =>
    match contentLength head with
    | none => .value (.ok (head, none)) c ts
    | some length =>
      match sysread ssl length c ts with
      | .value _ c ts =>
        .value (.ok (head, some (text (c.bin.take length)))) { c with bin := c.bin.drop length } ts
      | .died d t c => .died d t c
      | .waiting c => .waiting c
  | .value (.error e) c ts => .value (.error e) c ts
  | .died d t c => .died d t c
  | .waiting c => .waiting c

end Responses

/-! ### What the client makes of the bytes -/

/-- A text read from its beginning, with what is left of it. -/
abbrev Reader (α : Type) := Text → Except HeadError (α × Text)

/-- A call has made of the bytes it received what is in them. -/
def Made {α : Type} (read : Reader α) : Except HeadError α → List Byte → List Byte → Prop
  | .ok a, received, left => read (text received) = .ok (a, text left)
  | .error e, received, _ => read (text received) = .error e ∧ e ≠ .closed

/-- The bytes end before the response does. -/
def Lacking {α : Type} (read : Reader α) (received : List Byte) : Prop :=
  read (text received) = .error .closed

/-- A reader that begins with a line and goes on with `next` after it. -/
structure LineReader {α : Type} (read : Reader α) (next : Text → Reader α) : Prop where
  none {s : Text} : splitLine s = none → read s = .error .closed
  some {s raw rest : Text} : splitLine s = some (raw, rest) → read s = next (dropCr raw) rest

/-- What has been made of some bytes stands when more come. -/
def Grows {α : Type} (read : Reader α) : Prop :=
  ∀ s more, read s ≠ .error .closed → read (s ++ more) = (read s).map fun r => (r.1, r.2 ++ more)

theorem Grows.ok {α : Type} {read : Reader α} (hread : Grows read) {s left : Text} {a : α}
    (h : read s = .ok (a, left)) (more : Text) : read (s ++ more) = .ok (a, left ++ more) := by
  rw [hread s more (by rw [h]; exact nofun), h]
  rfl

theorem Grows.error {α : Type} {read : Reader α} (hread : Grows read) {s : Text} {e : HeadError}
    (h : read s = .error e) (hne : e ≠ .closed) (more : Text) : read (s ++ more) = .error e := by
  rw [hread s more (by rw [h]; exact fun heq => hne (Except.error.inj heq)), h]
  rfl

section Meaning

variable {α : Type} {ssl : Bool} {c c' : Client} {ts ts' : List Turn} {line : Text}
variable {read : Reader α} {next : Text → Reader α}

theorem reads_value {made : Except HeadError α} (h : Made read made c.bin c.bin)
    (more : List Byte → Prop) : Reads ssl c ts (Made read) more (.value made c ts) := by
  refine ⟨[], Takes.refl c ts, ?_⟩
  rwa [List.append_nil]

/-- A reader goes on where the line before it ends. -/
theorem reads_of_value (hread : LineReader read next)
    (hline : readline ssl c ts = .value line c' ts') {reply : Reply (Except HeadError α)}
    (h : Reads ssl c' ts' (Made (next line)) (Lacking (next line)) reply) :
    Reads ssl c ts (Made read) (Lacking read) reply := by
  have hreads := readline_reads ssl c ts
  rw [hline] at hreads
  obtain ⟨extra, htakes, raw, hsplit, rfl⟩ := hreads
  have hsome (extra' : List Byte) : read (text (c.bin ++ extra ++ extra')) =
      next (dropCr raw) (text (c'.bin ++ extra')) := by
    rw [text_append, hread.some (splitLine_grow hsplit (text extra')), text_append]
  refine Reads.after htakes rfl h (fun made extra' left' h => ?_) fun extra' h => ?_
  · cases made with
    | ok a => exact (hsome extra').trans h
    | error e => exact ⟨(hsome extra').trans h.1, h.2⟩
  · exact (hsome extra').trans h

theorem reads_of_died (hread : LineReader read next) {d : Death} {t : Turn}
    (hline : readline ssl c ts = .died d t c') :
    Reads ssl c ts (Made read) (Lacking read) (.died d t c') := by
  have hreads := readline_reads ssl c ts
  rw [hline] at hreads
  obtain ⟨extra, ts', htakes, hnone, hreason⟩ := hreads
  exact ⟨extra, ts', htakes, hread.none hnone, hreason⟩

theorem reads_of_waiting (hread : LineReader read next) (hline : readline ssl c ts = .waiting c') :
    Reads ssl c ts (Made read) (Lacking read) (.waiting c') := by
  have hreads := readline_reads ssl c ts
  rw [hline] at hreads
  obtain ⟨extra, htakes, hnone⟩ := hreads
  exact ⟨extra, htakes, hread.none hnone⟩

variable {β : Type} {received left : List Byte}

theorem made_map (f : α → β) {made : Except HeadError α} (h : Made read made received left) :
    Made (fun s => (read s).map fun r => (f r.1, r.2)) (made.map f) received left := by
  cases made with
  | ok a => exact congrArg (Except.map _) h
  | error e => exact ⟨congrArg (Except.map _) h.1, h.2⟩

theorem lacking_map (f : α → β) (h : Lacking read received) :
    Lacking (fun s => (read s).map fun r => (f r.1, r.2)) received :=
  congrArg (Except.map _) h

end Meaning

/-! ### The readers -/

section Readers

theorem readHeaders_lineReader (headers : List Text) :
    LineReader (HttpResponses.readHeaders headers) fun line rest =>
      if line = [] then .ok (headers, rest)
      else
        match takeLine headers line with
        | none => .error .badResponse
        | some headers => HttpResponses.readHeaders headers rest where
  none h := by
    rw [HttpResponses.readHeaders]
    split
    · rfl
    · next heq => cases h.symm.trans heq
  some h := by
    rw [HttpResponses.readHeaders]
    split
    · next heq => cases h.symm.trans heq
    · next heq =>
      cases h.symm.trans heq
      rfl

theorem readHttpResponseHead_lineReader :
    LineReader HttpResponses.readHttpResponseHead fun line rest =>
      if line.all isSpace then HttpResponses.readHttpResponseHead rest
      else
        match statusLine line with
        | none => .error .badResponse
        | some (version, code, message) =>
          if version = "HTTP/1.1".toList then
            (HttpResponses.readHeaders [] rest).map fun r => (⟨code, message, r.1⟩, r.2)
          else .error .versionNotSupportedByClient where
  none h := by
    rw [HttpResponses.readHttpResponseHead]
    split
    · rfl
    · next heq => cases h.symm.trans heq
  some h := by
    rw [HttpResponses.readHttpResponseHead]
    split
    · next heq => cases h.symm.trans heq
    · next heq =>
      cases h.symm.trans heq
      rfl

variable (ssl : Bool)

theorem readHeaders_reads (headers : List Text) (c : Client) (ts : List Turn) :
    Reads ssl c ts (Made (HttpResponses.readHeaders headers))
      (Lacking (HttpResponses.readHeaders headers)) (readHeaders ssl headers c ts) := by
  fun_induction readHeaders ssl headers c ts with
  | case1 headers c ts c' ts' hline =>
    refine reads_of_value (readHeaders_lineReader headers) hline (reads_value ?_ _)
    simp only [if_pos]
    rfl
  | case2 headers c ts line c' ts' hline hne hnone =>
    refine reads_of_value (readHeaders_lineReader headers) hline (reads_value ?_ _)
    simp only [if_neg hne, hnone]
    exact ⟨rfl, by decide⟩
  | case3 headers c ts line c' ts' hline hne headers' hsome ih =>
    refine reads_of_value (readHeaders_lineReader headers) hline ?_
    simp only [if_neg hne, hsome]
    exact ih
  | case4 headers c ts d t c' hline => exact reads_of_died (readHeaders_lineReader headers) hline
  | case5 headers c ts c' hline => exact reads_of_waiting (readHeaders_lineReader headers) hline

theorem readHttpResponseHead_reads (c : Client) (ts : List Turn) :
    Reads ssl c ts (Made HttpResponses.readHttpResponseHead)
      (Lacking HttpResponses.readHttpResponseHead) (readHttpResponseHead ssl c ts) := by
  have hreader := readHttpResponseHead_lineReader
  fun_induction readHttpResponseHead ssl c ts with
  | case1 c ts line c' ts' hline hspace ih =>
    refine reads_of_value hreader hline ?_
    simp only [if_pos hspace]
    exact ih
  | case2 c ts line c' ts' hline hspace hnone =>
    refine reads_of_value hreader hline (reads_value ?_ _)
    simp only [if_neg hspace, hnone]
    exact ⟨rfl, by decide⟩
  | case3 c ts line c' ts' hline hspace code message made c'' ts'' hheaders hstatus =>
    obtain ⟨extra, htakes, hmade⟩ := hheaders ▸ readHeaders_reads ssl [] c' ts'
    refine reads_of_value hreader hline ?_
    simp only [if_neg hspace, hstatus, if_true]
    exact ⟨extra, htakes, made_map _ hmade⟩
  | case4 c ts line c' ts' hline hspace code message d t c'' hheaders hstatus =>
    obtain ⟨extra, ts'', htakes, hlacking, hreason⟩ := hheaders ▸ readHeaders_reads ssl [] c' ts'
    refine reads_of_value hreader hline ?_
    simp only [if_neg hspace, hstatus, if_true]
    exact ⟨extra, ts'', htakes, lacking_map _ hlacking, hreason⟩
  | case5 c ts line c' ts' hline hspace code message c'' hheaders hstatus =>
    obtain ⟨extra, htakes, hlacking⟩ := hheaders ▸ readHeaders_reads ssl [] c' ts'
    refine reads_of_value hreader hline ?_
    simp only [if_neg hspace, hstatus, if_true]
    exact ⟨extra, htakes, lacking_map _ hlacking⟩
  | case6 c ts line c' ts' hline hspace version code message hstatus hversion =>
    refine reads_of_value hreader hline (reads_value ?_ _)
    simp only [if_neg hspace, hstatus, if_neg hversion]
    exact ⟨rfl, by decide⟩
  | case7 c ts d t c' hline => exact reads_of_died hreader hline
  | case8 c ts c' hline => exact reads_of_waiting hreader hline

/-- What `read_http_response` makes of a text. -/
def response : Reader (ResponseHead × Option Text) := fun s =>
  (HttpResponses.readHttpResponse s).map fun r => ((r.1, r.2.1), r.2.2)

/-- The part of `read_http_response` behind the head. -/
def body (head : ResponseHead) : Reader (ResponseHead × Option Text) := fun rest =>
  match contentLength head with
  | none => .ok ((head, none), rest)
  | some length =>
    if rest.length < length then .error .closed
    else .ok ((head, some (rest.take length)), rest.drop length)

theorem response_eq (s : Text) :
    response s = (HttpResponses.readHttpResponseHead s).bind fun r => body r.1 r.2 := by
  unfold response HttpResponses.readHttpResponse body contentLength
  cases HttpResponses.readHttpResponseHead s with
  | error e => rfl
  | ok r =>
    simp only [bind, Except.bind, Option.bind]
    cases headerLookup r.1.headers "Content-Length".toList with
    | none => rfl
    | some len =>
      dsimp only
      by_cases hzero : len = [] ∨ len = ['0']
      · simp only [if_pos hzero]
        rfl
      · simp only [if_neg hzero]
        split_ifs <;> rfl

theorem readHeaders_grows (headers : List Text) : Grows (HttpResponses.readHeaders headers) := by
  intro s more hs
  fun_induction HttpResponses.readHeaders headers s with
  | case1 headers s hnone => exact absurd rfl hs
  | case2 headers s raw rest hline hnil =>
    rw [(readHeaders_lineReader headers).some (splitLine_grow hline more)]
    simp only [if_pos hnil]
    rfl
  | case3 headers s raw rest hline hne hnone =>
    rw [(readHeaders_lineReader headers).some (splitLine_grow hline more)]
    simp only [if_neg hne, hnone]
    rfl
  | case4 headers s raw rest hline hne headers' hsome ih =>
    rw [(readHeaders_lineReader headers).some (splitLine_grow hline more)]
    simp only [if_neg hne, hsome]
    exact ih hs

theorem readHttpResponseHead_grows : Grows HttpResponses.readHttpResponseHead := by
  intro s more hs
  have hreader := readHttpResponseHead_lineReader
  fun_induction HttpResponses.readHttpResponseHead s with
  | case1 s hnone => exact absurd rfl hs
  | case2 s raw rest hline hspace ih =>
    rw [hreader.some (splitLine_grow hline more)]
    simp only [if_pos hspace]
    exact ih hs
  | case3 s raw rest hline hspace hnone =>
    rw [hreader.some (splitLine_grow hline more)]
    simp only [if_neg hspace, hnone]
    rfl
  | case4 s raw rest hline hspace code message hstatus =>
    rw [hreader.some (splitLine_grow hline more)]
    simp only [if_neg hspace, hstatus, if_true]
    rw [readHeaders_grows]
    · cases HttpResponses.readHeaders [] rest <;> rfl
    · intro hclosed
      exact hs (by rw [hclosed]; rfl)
  | case5 s raw rest hline hspace version code message hstatus hversion =>
    rw [hreader.some (splitLine_grow hline more)]
    simp only [if_neg hspace, hstatus, if_neg hversion]
    rfl

theorem body_grows (head : ResponseHead) : Grows (body head) := by
  intro s more hs
  unfold body at hs ⊢
  cases hlength : contentLength head with
  | none => rfl
  | some length =>
    have hlong : length ≤ s.length := by
      by_contra hshort
      simp only [hlength, if_pos (not_le.mp hshort)] at hs
      exact hs rfl
    have hmore : ¬(s ++ more).length < length := by
      rw [List.length_append]
      omega
    simp only [if_neg hmore, if_neg hlong.not_gt, List.take_append_of_le_length hlong,
      List.drop_append_of_le_length hlong]
    rfl

theorem response_grows : Grows response := by
  intro s more hs
  rw [response_eq] at hs
  rw [response_eq, response_eq, readHttpResponseHead_grows s more]
  · cases hhead : HttpResponses.readHttpResponseHead s with
    | error e => rfl
    | ok r =>
      rw [hhead] at hs
      exact body_grows r.1 r.2 more hs
  · intro hclosed
    exact hs (by rw [hclosed]; rfl)

/-- What comes after the head is read as its body. -/
theorem response_of_head {head : ResponseHead} {received left : List Byte}
    (h : Made HttpResponses.readHttpResponseHead (.ok head) received left) (more : List Byte) :
    response (text (received ++ more)) = body head (text (left ++ more)) := by
  rw [response_eq, text_append, readHttpResponseHead_grows.ok h, text_append]
  rfl

/-- `read_http_response`, however the bytes arrive. -/
theorem readHttpResponse_reads (c : Client) (ts : List Turn) :
    Reads ssl c ts (Made response) (Lacking response) (readHttpResponse ssl c ts) := by
  have hhead := readHttpResponseHead_reads ssl c ts
  have hlacking {received : List Byte} (h : Lacking HttpResponses.readHttpResponseHead received) :
      Lacking response received := by
    rw [Lacking, response_eq, h]
    rfl
  have hshort {head : ResponseHead} {length : ℕ} (hlength : contentLength head = some length)
      {rest : List Byte} (h : rest.length < length) : body head (text rest) = .error .closed := by
    simp only [body, hlength, text, List.length_map, if_pos h]
  fun_cases readHttpResponse ssl c ts with
  | case1 head c' ts' hvalue hlength =>
    obtain ⟨extra, htakes, hmade⟩ := hvalue ▸ hhead
    refine ⟨extra, htakes, ?_⟩
    rw [Made, ← List.append_nil (c.bin ++ extra), response_of_head hmade, List.append_nil]
    simp only [body, hlength]
  | case2 head c' ts' hvalue length hlength u c'' ts'' hbody =>
    obtain ⟨extra, htakes, hmade⟩ := hvalue ▸ hhead
    obtain ⟨extra', htakes', hbin, hlong⟩ := hbody ▸ sysread_reads ssl length c' ts'
    refine ⟨extra ++ extra', htakes.trans ⟨htakes'.stream, htakes'.arrivals_le⟩, ?_⟩
    have hnot : ¬(text (c'.bin ++ extra')).length < length := by
      rw [text, List.length_map]
      omega
    rw [Made, ← List.append_assoc, response_of_head hmade]
    simp only [body, hlength, if_neg hnot]
    simp only [text, hbin, List.map_take, List.map_drop]
  | case3 head c' ts' hvalue length hlength d t c'' hbody =>
    obtain ⟨extra, htakes, hmade⟩ := hvalue ▸ hhead
    obtain ⟨extra', ts'', htakes', hless, hreason⟩ := hbody ▸ sysread_reads ssl length c' ts'
    refine ⟨extra ++ extra', ts'', htakes.trans htakes', ?_, hreason⟩
    rw [Lacking, ← List.append_assoc, response_of_head hmade, hshort hlength hless]
  | case4 head c' ts' hvalue length hlength c'' hbody =>
    obtain ⟨extra, htakes, hmade⟩ := hvalue ▸ hhead
    obtain ⟨extra', htakes', hless⟩ := hbody ▸ sysread_reads ssl length c' ts'
    refine ⟨extra ++ extra', htakes.trans htakes', ?_⟩
    rw [Lacking, ← List.append_assoc, response_of_head hmade, hshort hlength hless]
  | case5 e c' ts' hvalue =>
    obtain ⟨extra, htakes, herror, hne⟩ := hvalue ▸ hhead
    refine ⟨extra, htakes, ?_, hne⟩
    rw [response_eq, herror]
    rfl
  | case6 d t c' hdied =>
    obtain ⟨extra, ts', htakes, h, hreason⟩ := hdied ▸ hhead
    exact ⟨extra, ts', htakes, hlacking h, hreason⟩
  | case7 c' hwaiting =>
    obtain ⟨extra, htakes, h⟩ := hwaiting ▸ hhead
    exact ⟨extra, htakes, hlacking h⟩

/-- A response has at least one byte. -/
theorem length_of_response {s left : Text} {a : ResponseHead × Option Text}
    (h : response s = .ok (a, left)) : left.length < s.length := by
  have hheaders (headers : List Text) (s : Text) {r : List Text × Text}
      (h : HttpResponses.readHeaders headers s = .ok r) : r.2.length < s.length := by
    fun_induction HttpResponses.readHeaders headers s with
    | case1 headers s hnone => cases h
    | case2 headers s raw rest hline hnil =>
      cases h
      exact length_of_splitLine hline
    | case3 headers s raw rest hline hne hnone => cases h
    | case4 headers s raw rest hline hne headers' hsome ih =>
      exact (ih h).trans (length_of_splitLine hline)
  have hhead (s : Text) {r : ResponseHead × Text}
      (h : HttpResponses.readHttpResponseHead s = .ok r) : r.2.length < s.length := by
    fun_induction HttpResponses.readHttpResponseHead s with
    | case1 s hnone => cases h
    | case2 s raw rest hline hspace ih => exact (ih h).trans (length_of_splitLine hline)
    | case3 s raw rest hline hspace hnone => cases h
    | case4 s raw rest hline hspace code message hstatus =>
      cases hread : HttpResponses.readHeaders [] rest with
      | error e =>
        rw [hread] at h
        cases h
      | ok r' =>
        rw [hread] at h
        cases h
        exact (hheaders [] rest hread).trans (length_of_splitLine hline)
    | case5 s raw rest hline hspace version code message hstatus hversion => cases h
  rw [response_eq] at h
  cases hread : HttpResponses.readHttpResponseHead s with
  | error e =>
    rw [hread] at h
    cases h
  | ok r =>
    rw [hread] at h
    have hbody : left.length ≤ r.2.length := by
      simp only [Except.bind, body] at h
      split at h
      · cases h
        exact le_rfl
      · split at h
        · cases h
        · cases h
          exact (List.drop_sublist _ _).length_le
    exact hbody.trans_lt (hhead s hread)

theorem length_of_readHttpResponse {c c' : Client} {ts ts' : List Turn}
    {a : ResponseHead × Option Text} (h : readHttpResponse ssl c ts = .value (.ok a) c' ts') :
    c'.bin.length + c'.stream.length < c.bin.length + c.stream.length := by
  obtain ⟨extra, htakes, hmade⟩ := h ▸ readHttpResponse_reads ssl c ts
  have hlength := length_of_response hmade
  simp only [text, List.length_map, List.length_append] at hlength
  rw [htakes.stream, List.length_append]
  omega

end Readers

end Qvd.ResponseReads
