import Qvd.ForwarderDelivery

/-!
What one pass of `forward_sockets` does for sockets of any kind. Each of its four operations is
put in a normal form: the loop with some fields replaced, the replacements being functions of the
answer and of the want that was recorded before. `beforeClosing` puts the four together, and
`iteration_of_serves` and `iteration_of_not_serves` say what a whole pass is.
-/
namespace Qvd.ForwarderPasses

open Qvd.SocketForwarder Qvd.PlainForwarder Qvd.ForwarderDelivery

/-! ### What an answer does -/

/-- The write want of a read after its answer. -/
def readWant (ssl wtw : Bool) : ReadResult → Bool
  | .error .wantWrite => ssl
  | .error _ => ssl && wtw
  | _ => false

/-- A read that schedules the closing of its in side. -/
def readEnds (ssl wtw : Bool) : ReadResult → Bool
  | .data _ _ => false
  | .eof => !wtw
  | .error _ => !ssl && !wtw

/-- A read error of the SSL layer that cannot be retried. -/
def readFatal (ssl : Bool) (r : ReadResult) : Bool := ssl && r = .error .other

/-- The read want of a write after its answer. -/
def writeWant (ssl wtr : Bool) : WriteResult → Bool
  | .wrote (_ + 1) => false
  | .wrote 0 => wtr
  | .error e => ssl && e = .wantRead || wtr

/-- A write that schedules the closing of its out side. -/
def writeFails (ssl : Bool) : WriteResult → Bool
  | .wrote n => n = 0
  | .error e => !ssl || e = .other

/-- The bytes that leave the buffer. -/
def sent : WriteResult → ℕ
  | .wrote n => n
  | .error _ => 0

/-- The size that is remembered for the next write. -/
def nextChunk (o : Options) (ssl : Bool) (length size : ℕ) : WriteResult → ℕ
  | .wrote (_ + 1) => o.ioChunkSize
  | .error .wantWrite => if ssl && length < size then length else size
  | _ => size

/-! ### The four operations -/

section Operations

variable (o : Options) (bits : Bits) (w : Bool) (l : Loop)

theorem readFrom1_eq (r : ReadResult) (t : Bool)
    (ht : (w && if l.sslWtw1 then bits.w1 else bits.r1) = t) :
    l.readFrom1 o bits r w =
      { l with
        b1to2 := l.b1to2 ++ arrived t r
        sslWtw1 := if t then readWant o.ssl1 l.sslWtw1 r else l.sslWtw1
        close.s1in := l.close.s1in || t && readEnds o.ssl1 l.sslWtw1 r
        close.slin := l.close.slin || t && readFatal o.ssl1 r
        calls := l.calls ++ readCalls .s1 t r } := by
  unfold Loop.readFrom1
  rw [ht]
  cases t with
  | false => simp [arrived, readCalls]
  | true =>
    cases r with
    | data b bs =>
      simp [Loop.log, readWant, readEnds, readFatal, arrived, readCalls, ReadResult.bytes]
    | eof =>
      cases hwtw : l.sslWtw1 <;>
        simp [Loop.log, Loop.noData1, readWant, readEnds, readFatal, arrived, readCalls,
          ReadResult.bytes, hwtw]
    | error e =>
      cases hwtw : l.sslWtw1 <;> cases hssl : o.ssl1 <;> cases e <;>
        simp [Loop.log, Loop.noData1, readWant, readEnds, readFatal, arrived, readCalls,
          ReadResult.bytes, hwtw]

theorem readFrom2_eq (r : ReadResult) (t : Bool)
    (ht : (w && if l.sslWtw2 then bits.w2 else bits.r2) = t) :
    l.readFrom2 o bits r w =
      { l with
        b2to1 := l.b2to1 ++ arrived t r
        sslWtw2 := if t then readWant o.ssl2 l.sslWtw2 r else l.sslWtw2
        close.s2in := l.close.s2in || t && readEnds o.ssl2 l.sslWtw2 r
        calls := l.calls ++ readCalls .s2 t r } := by
  unfold Loop.readFrom2
  rw [ht]
  cases t with
  | false => simp [arrived, readCalls]
  | true =>
    cases r with
    | data b bs => simp [Loop.log, readWant, readEnds, arrived, readCalls, ReadResult.bytes]
    | eof =>
      cases hwtw : l.sslWtw2 <;>
        simp [Loop.log, Loop.noData2, readWant, readEnds, arrived, readCalls,
          ReadResult.bytes, hwtw]
    | error e =>
      cases hwtw : l.sslWtw2 <;> cases hssl : o.ssl2 <;> cases e <;>
        simp [Loop.log, Loop.noData2, readWant, readEnds, arrived, readCalls,
          ReadResult.bytes, hwtw]

/-- After a write of some bytes to s1 the buffer is empty and s2 is at its end of file. -/
def exhausts1 (r : WriteResult) : Bool :=
  0 < sent r && (l.s2InClosed && (l.b2to1.drop (sent r)).isEmpty)

/-- The test for s2 asks for a buffer that is not empty. -/
def exhausts2 (r : WriteResult) : Bool :=
  0 < sent r && (l.s1InClosed && !(l.b1to2.drop (sent r)).isEmpty)

theorem writeTo1_eq (r : WriteResult) (t : Bool)
    (ht : (w && if l.sslWtr1 then bits.r1 else bits.w1) = t) :
    l.writeTo1 o bits r w =
      { l with
        b2to1 := if t then l.b2to1.drop (sent r) else l.b2to1
        writeChunkSize1 :=
          if t then nextChunk o o.ssl1 l.b2to1.length l.writeChunkSize1 r else l.writeChunkSize1
        s1OutClosed := l.s1OutClosed || t && exhausts1 l r
        sslWtr1 := if t then writeWant o.ssl1 l.sslWtr1 r else l.sslWtr1
        close.s1out := l.close.s1out || t && writeFails o.ssl1 r
        calls := l.calls ++
          writeCalls .s1 t (l.b2to1.take o.ioChunkSize) r (exhausts1 l r && !o.ssl1) } := by
  unfold Loop.writeTo1
  rw [ht]
  cases t with
  | false => simp [writeCalls]
  | true =>
    cases r with
    | wrote n =>
      cases n with
      | zero =>
        simp [Loop.log, writeWant, writeFails, exhausts1, sent, nextChunk, shutCalls, writeCalls]
      | succ n =>
        cases hdone : l.s2InClosed && (l.b2to1.drop (n + 1)).isEmpty <;> cases hssl : o.ssl1 <;>
          simp [Loop.log, writeWant, writeFails, exhausts1, sent, nextChunk, shutCalls,
            writeCalls, hdone, Loop.shutdownUnless]
    | error e =>
      cases hssl : o.ssl1 <;> cases e <;>
        simp [Loop.log, writeWant, writeFails, exhausts1, sent, nextChunk, shutCalls, writeCalls]
      rfl

theorem writeTo2_eq (r : WriteResult) (t : Bool)
    (ht : (w && if l.sslWtr2 then bits.r2 else bits.w2) = t) :
    l.writeTo2 o bits r w =
      { l with
        b1to2 := if t then l.b1to2.drop (sent r) else l.b1to2
        writeChunkSize2 :=
          if t then nextChunk o o.ssl2 l.b1to2.length l.writeChunkSize2 r else l.writeChunkSize2
        s2OutClosed := l.s2OutClosed || t && exhausts2 l r
        sslWtr2 := if t then writeWant o.ssl2 l.sslWtr2 r else l.sslWtr2
        close.s2out := l.close.s2out || t && writeFails o.ssl2 r
        calls := l.calls ++
          writeCalls .s2 t (l.b1to2.take l.writeChunkSize2) r (exhausts2 l r && !o.ssl2) } := by
  unfold Loop.writeTo2
  rw [ht]
  cases t with
  | false => simp [writeCalls]
  | true =>
    cases r with
    | wrote n =>
      cases n with
      | zero =>
        simp [Loop.log, writeWant, writeFails, exhausts2, sent, nextChunk, shutCalls, writeCalls]
      | succ n =>
        cases hdone : l.s1InClosed && !(l.b1to2.drop (n + 1)).isEmpty <;>
          cases hssl : o.ssl2 <;>
          simp [Loop.log, writeWant, writeFails, exhausts2, sent, nextChunk, shutCalls,
            writeCalls, hdone, Loop.shutdownUnless]
    | error e =>
      cases hssl : o.ssl2 <;> cases e <;>
        simp [Loop.log, writeWant, writeFails, exhausts2, sent, nextChunk, shutCalls, writeCalls]
      rfl

end Operations

/-! ### The body under `if ($n > 0)` -/

section Serve

variable (o : Options) (l : Loop) (x : Outcome)

/-- What `select` leaves set. -/
def bits : Bits := l.selectBits x.ready (l.wtr1 o) (l.wtr2 o) l.wtw1 l.wtw2

/-- Some socket is reported ready. -/
def anyReady : Bool := (bits o l x).r1 || (bits o l x).r2 || (bits o l x).w1 || (bits o l x).w2

def triesRead1 : Bool := l.wtr1 o && if l.sslWtw1 then (bits o l x).w1 else (bits o l x).r1

def triesRead2 : Bool := l.wtr2 o && if l.sslWtw2 then (bits o l x).w2 else (bits o l x).r2

def triesWrite1 : Bool := l.wtw1 && if l.sslWtr1 then (bits o l x).r1 else (bits o l x).w1

def triesWrite2 : Bool := l.wtw2 && if l.sslWtr2 then (bits o l x).r2 else (bits o l x).w2

/-- The buffer for s1 when it is written. -/
def toWrite1 : List Byte := l.b2to1 ++ arrived (triesRead2 o l x) x.read2

/-- The buffer for s2 when it is written. -/
def toWrite2 : List Byte := l.b1to2 ++ arrived (triesRead1 o l x) x.read1

def exhausted1 : Bool :=
  triesWrite1 o l x && exhausts1 { l with b2to1 := toWrite1 o l x } x.write1

def exhausted2 : Bool :=
  triesWrite2 o l x && exhausts2 { l with b1to2 := toWrite2 o l x } x.write2

/-- The calls of the two reads and the two writes. -/
def passCalls : List Call :=
  readCalls .s1 (triesRead1 o l x) x.read1 ++ readCalls .s2 (triesRead2 o l x) x.read2 ++
    writeCalls .s1 (triesWrite1 o l x) ((toWrite1 o l x).take o.ioChunkSize) x.write1
      (exhausts1 { l with b2to1 := toWrite1 o l x } x.write1 && !o.ssl1) ++
    writeCalls .s2 (triesWrite2 o l x) ((toWrite2 o l x).take l.writeChunkSize2) x.write2
      (exhausts2 { l with b1to2 := toWrite2 o l x } x.write2 && !o.ssl2)

/-- The hash `%close` after the reads and writes. -/
def scheduled : Close where
  s1in := triesRead1 o l x && readEnds o.ssl1 l.sslWtw1 x.read1
  slin := triesRead1 o l x && readFatal o.ssl1 x.read1
  s2in := triesRead2 o l x && readEnds o.ssl2 l.sslWtw2 x.read2
  s1out := triesWrite1 o l x && writeFails o.ssl1 x.write1
  s2out := triesWrite2 o l x && writeFails o.ssl2 x.write2

/-- The loop after the reads and writes. -/
def beforeClosing : Loop :=
  { l with
    b1to2 := if triesWrite2 o l x then (toWrite2 o l x).drop (sent x.write2) else toWrite2 o l x
    b2to1 := if triesWrite1 o l x then (toWrite1 o l x).drop (sent x.write1) else toWrite1 o l x
    writeChunkSize1 :=
      if triesWrite1 o l x then
        nextChunk o o.ssl1 (toWrite1 o l x).length l.writeChunkSize1 x.write1
      else l.writeChunkSize1
    writeChunkSize2 :=
      if triesWrite2 o l x then
        nextChunk o o.ssl2 (toWrite2 o l x).length l.writeChunkSize2 x.write2
      else l.writeChunkSize2
    s1OutClosed := l.s1OutClosed || exhausted1 o l x
    s2OutClosed := l.s2OutClosed || exhausted2 o l x
    sslWtr1 := if triesWrite1 o l x then writeWant o.ssl1 l.sslWtr1 x.write1 else l.sslWtr1
    sslWtw1 := if triesRead1 o l x then readWant o.ssl1 l.sslWtw1 x.read1 else l.sslWtw1
    sslWtr2 := if triesWrite2 o l x then writeWant o.ssl2 l.sslWtr2 x.write2 else l.sslWtr2
    sslWtw2 := if triesRead2 o l x then readWant o.ssl2 l.sslWtw2 x.read2 else l.sslWtw2
    close := scheduled o l x
    calls := l.calls ++ passCalls o l x }

/-- The four operations in a row. -/
theorem serve_eq (hclose : l.close = {}) :
    l.serve o x (l.wtr1 o) (l.wtr2 o) l.wtw1 l.wtw2 = (beforeClosing o l x).closing o := by
  change (((((l.readFrom1 o (bits o l x) _ _).readFrom2 o (bits o l x) _ _).writeTo1 o
    (bits o l x) _ _).writeTo2 o (bits o l x) _ _).closing o) = _
  rw [readFrom1_eq o (bits o l x) (l.wtr1 o) l x.read1 (triesRead1 o l x) rfl,
    readFrom2_eq o (bits o l x) (l.wtr2 o) _ x.read2 (triesRead2 o l x),
    writeTo1_eq o (bits o l x) l.wtw1 _ x.write1 (triesWrite1 o l x),
    writeTo2_eq o (bits o l x) l.wtw2 _ x.write2 (triesWrite2 o l x)]
  · refine congrArg (Loop.closing o) ?_
    simp only [hclose, beforeClosing, scheduled, passCalls, Bool.false_or, List.append_assoc]
    rfl
  all_goals rfl

end Serve

/-! ### One pass -/

section Pass

variable (o : Options) (l : Loop) (x : Outcome)

/-- Bytes that an SSL s1 has already decrypted are read, and the pass is redone. -/
def redoes1 : Bool :=
  o.ssl1 && l.wtr1 o && x.pending1.any fun r => !(ReadResult.bytes r).isEmpty

def redoes2 : Bool :=
  !redoes1 o l x && (o.ssl2 && l.wtr2 o && x.pending2.any fun r => !(ReadResult.bytes r).isEmpty)

/-- The reads of decrypted bytes, where they bring none. -/
def pendingCalls1 : List Call :=
  x.pending1.toList.flatMap fun r => readCalls .s1 (o.ssl1 && l.wtr1 o) r

def pendingCalls2 : List Call :=
  x.pending2.toList.flatMap fun r => readCalls .s2 (o.ssl2 && l.wtr2 o) r

/-- The pass reaches `select`, which finds something. -/
def serves : Bool :=
  !redoes1 o l x && !redoes2 o l x && !leaves o l && x.selected

/-- The state in which `select` is called. -/
def atSelect : Loop := { l with calls := l.calls ++ pendingCalls1 o l x ++ pendingCalls2 o l x }

theorem readPending1_of_redoes (h : redoes1 o l x = true) :
    ∃ r, x.pending1 = some r ∧ l.readPending1 o x (l.wtr1 o) =
      ({ l.log (.sysread .s1 r) with b1to2 := l.b1to2 ++ ReadResult.bytes r }, true) := by
  simp only [redoes1, Bool.and_eq_true, Option.any_eq_true] at h
  obtain ⟨⟨hssl, hwtr⟩, r, hr, hbytes⟩ := h
  refine ⟨r, hr, ?_⟩
  cases r with
  | data b bs => simp [Loop.readPending1, hr, hssl, hwtr, ReadResult.bytes]
  | eof => simp [ReadResult.bytes] at hbytes
  | error e => simp [ReadResult.bytes] at hbytes

theorem readPending2_of_redoes (h : redoes2 o l x = true) :
    ∃ r, x.pending2 = some r ∧ l.readPending2 o x (l.wtr2 o) =
      ({ l.log (.sysread .s2 r) with b2to1 := l.b2to1 ++ ReadResult.bytes r }, true) := by
  simp only [redoes2, Bool.and_eq_true, Option.any_eq_true] at h
  obtain ⟨-, ⟨hssl, hwtr⟩, r, hr, hbytes⟩ := h
  refine ⟨r, hr, ?_⟩
  cases r with
  | data b bs => simp [Loop.readPending2, hr, hssl, hwtr, ReadResult.bytes]
  | eof => simp [ReadResult.bytes] at hbytes
  | error e => simp [ReadResult.bytes] at hbytes

theorem readPending1_of_not_redoes (h : redoes1 o l x = false) :
    l.readPending1 o x (l.wtr1 o) =
      ({ l with calls := l.calls ++ pendingCalls1 o l x }, false) := by
  cases hp : x.pending1 with
  | none => simp [Loop.readPending1, pendingCalls1, hp]
  | some r =>
    cases hw : o.ssl1 && l.wtr1 o with
    | false => simp [Loop.readPending1, pendingCalls1, hp, hw, readCalls]
    | true =>
      rw [redoes1, hw, hp] at h
      cases r with
      | data b bs => simp [ReadResult.bytes] at h
      | eof => simp [Loop.readPending1, pendingCalls1, hp, hw, readCalls, Loop.log]
      | error e => simp [Loop.readPending1, pendingCalls1, hp, hw, readCalls, Loop.log]

theorem readPending2_of_not_redoes
    (h : (o.ssl2 && l.wtr2 o && x.pending2.any fun r => !(ReadResult.bytes r).isEmpty) = false) :
    l.readPending2 o x (l.wtr2 o) =
      ({ l with calls := l.calls ++ pendingCalls2 o l x }, false) := by
  cases hp : x.pending2 with
  | none => simp [Loop.readPending2, pendingCalls2, hp]
  | some r =>
    cases hw : o.ssl2 && l.wtr2 o with
    | false => simp [Loop.readPending2, pendingCalls2, hp, hw, readCalls]
    | true =>
      rw [hw, hp] at h
      cases r with
      | data b bs => simp [ReadResult.bytes] at h
      | eof => simp [Loop.readPending2, pendingCalls2, hp, hw, readCalls, Loop.log]
      | error e => simp [Loop.readPending2, pendingCalls2, hp, hw, readCalls, Loop.log]

section Cases

variable {o l x} {p q : Loop}

theorem iteration_of_redo1 (h : l.readPending1 o x (l.wtr1 o) = (p, true)) :
    l.iteration o x = p := by
  simp only [Loop.iteration, h, if_true]

theorem iteration_of_redo2 (hp : l.readPending1 o x (l.wtr1 o) = (p, false))
    (hq : p.readPending2 o x (p.wtr2 o) = (q, true)) : l.iteration o x = q := by
  simp only [Loop.iteration, hp, hq, Bool.false_eq_true, if_false, if_true]

theorem iteration_of_select (hp : l.readPending1 o x (l.wtr1 o) = (p, false))
    (hq : p.readPending2 o x (p.wtr2 o) = (q, false)) :
    l.iteration o x =
      if (q.s1OutClosed && q.s2OutClosed) ||
          !(l.wtr1 o || p.wtr2 o || q.wtw1 || q.wtw2) then q.finish
      else if x.selected then q.serve o x (l.wtr1 o) (p.wtr2 o) q.wtw1 q.wtw2
      else q := by
  simp only [Loop.iteration, hp, hq, Bool.false_eq_true, if_false]
  cases q.s1OutClosed && q.s2OutClosed <;> rfl

end Cases

/-- What a pass can be: a read of decrypted bytes on either side, the end of the loop, a `select`
that finds nothing, or the body under `if ($n > 0)`. -/
theorem iteration_cases :
    (serves o l x = false ∧ redoes1 o l x = true ∧ ∃ r, x.pending1 = some r ∧
      l.iteration o x =
        { l.log (.sysread .s1 r) with b1to2 := l.b1to2 ++ ReadResult.bytes r }) ∨
    (serves o l x = false ∧ redoes1 o l x = false ∧ redoes2 o l x = true ∧ ∃ r,
      x.pending2 = some r ∧
      l.iteration o x =
        { l with
          b2to1 := l.b2to1 ++ ReadResult.bytes r
          calls := l.calls ++ pendingCalls1 o l x ++ [.sysread .s2 r] }) ∨
    (serves o l x = false ∧ redoes1 o l x = false ∧ redoes2 o l x = false ∧
      leaves o l = true ∧ l.iteration o x = (atSelect o l x).finish) ∨
    (serves o l x = false ∧ redoes1 o l x = false ∧ redoes2 o l x = false ∧
      leaves o l = false ∧ l.iteration o x = atSelect o l x) ∨
    (serves o l x = true ∧ redoes1 o l x = false ∧ redoes2 o l x = false ∧
      leaves o l = false ∧
      l.iteration o x = (atSelect o l x).serve o x (l.wtr1 o) (l.wtr2 o) l.wtw1 l.wtw2) := by
  cases h1 : redoes1 o l x with
  | true =>
    obtain ⟨r, hr, hread⟩ := readPending1_of_redoes o l x h1
    exact .inl ⟨by simp [serves, h1], rfl, r, hr, iteration_of_redo1 hread⟩
  | false =>
    have hp := readPending1_of_not_redoes o l x h1
    cases h2 : redoes2 o l x with
    | true =>
      obtain ⟨r, hr, hread⟩ := readPending2_of_redoes o
        { l with calls := l.calls ++ pendingCalls1 o l x } x
        (by simpa [redoes2, redoes1, Loop.wtr1, Loop.wtr2] using h2)
      exact .inr (.inl ⟨by simp [serves, h2], rfl, rfl, r, hr, iteration_of_redo2 hp hread⟩)
    | false =>
      have hq := readPending2_of_not_redoes o
        { l with calls := l.calls ++ pendingCalls1 o l x } x
        (by simpa [redoes2, h1, Loop.wtr2] using h2)
      have hpass := iteration_of_select hp hq
      refine .inr (.inr ?_)
      cases h3 : leaves o l with
      | true => exact .inl ⟨by simp [serves, h3], rfl, rfl, rfl, hpass.trans (if_pos h3)⟩
      | false =>
        refine .inr ?_
        have hpass := hpass.trans (if_neg (ne_true_of_eq_false h3))
        cases h4 : x.selected with
        | true =>
          rw [h4] at hpass
          exact .inr ⟨by simp [serves, h1, h2, h3, h4], rfl, rfl, rfl, hpass.trans (if_pos rfl)⟩
        | false =>
          rw [h4] at hpass
          exact .inl ⟨by simp [serves, h4], rfl, rfl, rfl, hpass.trans (if_neg (by simp))⟩

variable {o l x}

/-- The hash is empty again after each pass. -/
theorem close_iteration (hclose : l.close = {}) : (l.iteration o x).close = {} := by
  rcases iteration_cases o l x with ⟨-, -, r, -, h⟩ | ⟨-, -, -, r, -, h⟩ | ⟨-, -, -, -, h⟩ |
    ⟨-, -, -, -, h⟩ | ⟨-, -, -, -, h⟩
  · rw [h]
    exact hclose
  · rw [h]
    exact hclose
  · rw [h]
    exact hclose
  · rw [h]
    exact hclose
  · rw [h]
    rfl

theorem iteration_of_serves (hclose : l.close = {}) (h : serves o l x = true) :
    l.iteration o x = (beforeClosing o (atSelect o l x) x).closing o := by
  rcases iteration_cases o l x with ⟨hs, -⟩ | ⟨hs, -⟩ | ⟨hs, -⟩ | ⟨hs, -⟩ | ⟨-, -, -, -, hi⟩
  · simp [h] at hs
  · simp [h] at hs
  · simp [h] at hs
  · simp [h] at hs
  · exact hi.trans (serve_eq o (atSelect o l x) x hclose)

end Pass

end Qvd.ForwarderPasses
