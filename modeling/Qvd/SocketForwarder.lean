import Mathlib.Data.Nat.Notation
import Mathlib.Tactic.Common

/-!
`forward_sockets` of IO::Socket::Forwarder: one pass of its `while (1)` loop,
with both hand-written directions, the SSL bookkeeping and the propagation of
the close flags. What the operating system and the SSL layer answer is an
`Outcome`; the calls made are logged in order in `Loop.calls`.
-/
namespace Qvd.SocketForwarder

abbrev Byte := UInt8

inductive Side
  | s1
  | s2
  deriving DecidableEq, Repr

/-- What `_ssl_error` tells after a call on an SSL socket returned undef. -/
inductive SslError
  | wantRead
  | wantWrite
  | other
  deriving DecidableEq, Repr

/-- The result of `sysread`: some bytes, 0 at end of file, or undef. -/
inductive ReadResult
  | data (b : Byte) (bs : List Byte)
  | eof
  | error (e : SslError)
  deriving DecidableEq, Repr

/-- The result of `syswrite`: a byte count or undef. -/
inductive WriteResult
  | wrote (n : ℕ)
  | error (e : SslError)
  deriving DecidableEq, Repr

/-- The second argument of `shutdown`: 0, 1 or 2. -/
inductive How
  | reading
  | writing
  | both
  deriving DecidableEq, Repr

inductive Call
  | sysread (s : Side) (r : ReadResult)
  | syswrite (s : Side) (offered : List Byte) (r : WriteResult)
  | shutdown (s : Side) (how : How)
  deriving DecidableEq, Repr

/-- `io_buffer_size` and `io_chunk_size` after the defaults for a missing or
zero option, and whether the sockets are of class IO::Socket::SSL. -/
structure Options where
  ioBufferSize : ℕ
  ioChunkSize : ℕ
  ssl1 : Bool
  ssl2 : Bool
  ioBufferSize_pos : 0 < ioBufferSize
  ioChunkSize_pos : 0 < ioChunkSize

/-- `delete $opts{..} || default`. -/
def orDefault (opt : Option ℕ) (default : ℕ) : ℕ :=
  match opt with
  | some (n + 1) => n + 1
  | _ => default

theorem orDefault_pos (opt : Option ℕ) (default : ℕ) (h : 0 < default) :
    0 < orDefault opt default := by
  unfold orDefault
  split <;> omega

def Options.ofArgs (ioBufferSize ioChunkSize : Option ℕ) (ssl1 ssl2 : Bool) : Options where
  ioBufferSize := orDefault ioBufferSize (64 * 1024)
  ioChunkSize := orDefault ioChunkSize (16 * 1024)
  ssl1 := ssl1
  ssl2 := ssl2
  ioBufferSize_pos := orDefault_pos _ _ (by omega)
  ioChunkSize_pos := orDefault_pos _ _ (by omega)

/-- The hash `%close`. The key `slin` is the one written when a read of an
SSL s1 fails; nothing reads it. -/
structure Close where
  s1in : Bool := false
  slin : Bool := false
  s2in : Bool := false
  s1out : Bool := false
  s2out : Bool := false
  deriving DecidableEq, Repr

def Close.any (c : Close) : Bool := c.s1in || c.slin || c.s2in || c.s1out || c.s2out

/-- The variables of the loop. -/
structure Loop where
  b1to2 : List Byte
  b2to1 : List Byte
  writeChunkSize1 : ℕ
  writeChunkSize2 : ℕ
  s1InClosed : Bool := false
  s2InClosed : Bool := false
  s1OutClosed : Bool := false
  s2OutClosed : Bool := false
  sslWtr1 : Bool := false
  sslWtw1 : Bool := false
  sslWtr2 : Bool := false
  sslWtw2 : Bool := false
  close : Close := {}
  exited : Bool := false
  calls : List Call := []
  deriving DecidableEq, Repr

def start (o : Options) (buffer1to2 buffer2to1 : List Byte) : Loop where
  b1to2 := buffer1to2
  b2to1 := buffer2to1
  writeChunkSize1 := o.ioChunkSize
  writeChunkSize2 := o.ioChunkSize

/-- The bit vectors for `select`, one bit for each socket. -/
structure Bits where
  r1 : Bool
  r2 : Bool
  w1 : Bool
  w2 : Bool
  deriving DecidableEq, Repr

/-- The answers of one pass: `pending` of an SSL socket with the result of
the read it leads to, whether `select` returned a positive count, which
descriptors are ready, and the results of the reads and writes that follow.
A result is used only if the call is made. -/
structure Outcome where
  pending1 : Option ReadResult := none
  pending2 : Option ReadResult := none
  selected : Bool := true
  ready : Bits
  read1 : ReadResult
  read2 : ReadResult
  write1 : WriteResult
  write2 : WriteResult
  deriving DecidableEq, Repr

namespace Loop

def log (l : Loop) (c : Call) : Loop := { l with calls := l.calls ++ [c] }

/-- Room in the buffer and the in side still open. -/
def wtr1 (o : Options) (l : Loop) : Bool :=
  !l.s1InClosed && decide (l.b1to2.length < o.ioBufferSize)

def wtr2 (o : Options) (l : Loop) : Bool :=
  !l.s2InClosed && decide (l.b2to1.length < o.ioBufferSize)

def wtw1 (l : Loop) : Bool := !l.s1OutClosed && !l.b2to1.isEmpty

def wtw2 (l : Loop) : Bool := !l.s2OutClosed && !l.b1to2.isEmpty

/-- The extra read for bytes an SSL s1 has already decrypted; the flag says
whether the pass is redone. -/
def readPending1 (o : Options) (x : Outcome) (wtr1 : Bool) (l : Loop) : Loop × Bool :=
  match x.pending1 with
  | some r =>
    if o.ssl1 && wtr1 then
      match r with
      | .data b bs => ({ l.log (.sysread .s1 r) with b1to2 := l.b1to2 ++ b :: bs }, true)
      | _ => (l.log (.sysread .s1 r), false)
    else (l, false)
  | none => (l, false)

def readPending2 (o : Options) (x : Outcome) (wtr2 : Bool) (l : Loop) : Loop × Bool :=
  match x.pending2 with
  | some r =>
    if o.ssl2 && wtr2 then
      match r with
      | .data b bs => ({ l.log (.sysread .s2 r) with b2to1 := l.b2to1 ++ b :: bs }, true)
      | _ => (l.log (.sysread .s2 r), false)
    else (l, false)
  | none => (l, false)

/-- `select` leaves set the requested bits whose descriptor is ready. -/
def selectBits (ready : Bits) (wtr1 wtr2 wtw1 wtw2 : Bool) (l : Loop) : Bits where
  r1 := ((wtr1 && !l.sslWtw1) || l.sslWtr1) && ready.r1
  r2 := ((wtr2 && !l.sslWtw2) || l.sslWtr2) && ready.r2
  w1 := ((wtw1 && !l.sslWtr1) || l.sslWtw1) && ready.w1
  w2 := ((wtw2 && !l.sslWtr2) || l.sslWtw2) && ready.w2

/-- Nothing came from s1 and it is not an SSL retry. -/
def noData1 (l : Loop) : Loop :=
  if l.sslWtw1 then { l with sslWtw1 := false } else { l with close.s1in := true }

def noData2 (l : Loop) : Loop :=
  if l.sslWtw2 then { l with sslWtw2 := false } else { l with close.s2in := true }

def readFrom1 (o : Options) (bits : Bits) (r : ReadResult) (wtr1 : Bool) (l : Loop) : Loop :=
  if wtr1 && (if l.sslWtw1 then bits.w1 else bits.r1) then
    let l := l.log (.sysread .s1 r)
    match r with
    | .data b bs => { l with b1to2 := l.b1to2 ++ b :: bs, sslWtw1 := false }
    | .eof => l.noData1
    | .error e =>
      if o.ssl1 then
        match e with
        | .wantWrite => { l with sslWtw1 := true }
        | .wantRead => l
        | .other => { l with close.slin := true }
      else l.noData1
  else l

def readFrom2 (o : Options) (bits : Bits) (r : ReadResult) (wtr2 : Bool) (l : Loop) : Loop :=
  if wtr2 && (if l.sslWtw2 then bits.w2 else bits.r2) then
    let l := l.log (.sysread .s2 r)
    match r with
    | .data b bs => { l with b2to1 := l.b2to1 ++ b :: bs, sslWtw2 := false }
    | .eof => l.noData2
    | .error e =>
      if o.ssl2 then
        match e with
        | .wantWrite => { l with sslWtw2 := true }
        | .wantRead => l
        | .other => l
      else l.noData2
  else l

/-- `shutdown($s, 1) unless $ssl`. -/
def shutdownUnless (ssl : Bool) (s : Side) (l : Loop) : Loop :=
  if ssl then l else l.log (.shutdown s .writing)

/-- The write to s1 offers at most `$io_chunk_size` bytes. -/
def writeTo1 (o : Options) (bits : Bits) (r : WriteResult) (wtw1 : Bool) (l : Loop) : Loop :=
  if wtw1 && (if l.sslWtr1 then bits.r1 else bits.w1) then
    let l := l.log (.syswrite .s1 (l.b2to1.take o.ioChunkSize) r)
    match r with
    | .wrote (n + 1) =>
      let l := { l with b2to1 := l.b2to1.drop (n + 1) }
      let l := if l.s2InClosed && l.b2to1.isEmpty then
          { l.shutdownUnless o.ssl1 .s1 with s1OutClosed := true }
        else l
      { l with writeChunkSize1 := o.ioChunkSize, sslWtr1 := false }
    | .wrote 0 => { l with close.s1out := true }
    | .error e =>
      if o.ssl1 then
        match e with
        | .wantRead => { l with sslWtr1 := true }
        | .wantWrite =>
          { l with
            writeChunkSize1 :=
              if l.b2to1.length < l.writeChunkSize1 then l.b2to1.length else l.writeChunkSize1 }
        | .other => { l with close.s1out := true }
      else { l with close.s1out := true }
  else l

/-- The write to s2 offers at most `$write_chunk_size2` bytes, and its test
after a write lacks the negation that the one for s1 has. -/
def writeTo2 (o : Options) (bits : Bits) (r : WriteResult) (wtw2 : Bool) (l : Loop) : Loop :=
  if wtw2 && (if l.sslWtr2 then bits.r2 else bits.w2) then
    let l := l.log (.syswrite .s2 (l.b1to2.take l.writeChunkSize2) r)
    match r with
    | .wrote (n + 1) =>
      let l := { l with b1to2 := l.b1to2.drop (n + 1) }
      let l := if l.s1InClosed && !l.b1to2.isEmpty then
          { l.shutdownUnless o.ssl2 .s2 with s2OutClosed := true }
        else l
      { l with writeChunkSize2 := o.ioChunkSize, sslWtr2 := false }
    | .wrote 0 => { l with close.s2out := true }
    | .error e =>
      if o.ssl2 then
        match e with
        | .wantRead => { l with sslWtr2 := true }
        | .wantWrite =>
          { l with
            writeChunkSize2 :=
              if l.b1to2.length < l.writeChunkSize2 then l.b1to2.length else l.writeChunkSize2 }
        | .other => { l with close.s2out := true }
      else { l with close.s2out := true }
  else l

/-- One turn of `for (1, 2, 3)`: each assignment sees the ones before it. -/
def propagate (o : Options) (l : Loop) (c : Close) : Close :=
  let c := if o.ssl1 && (c.s1in || c.s1out) then { c with s1in := true, s1out := true } else c
  let c := if o.ssl2 && (c.s2in || c.s2out) then { c with s2in := true, s2out := true } else c
  let c := if c.s1in && l.b1to2.isEmpty then { c with s2out := true } else c
  if c.s2in && l.b2to1.isEmpty then { c with s1out := true } else c

/-- The block under `if (%close)` and the reset of the hash after it. -/
def closing (o : Options) (l : Loop) : Loop :=
  let l := if l.close.any then
      let c := propagate o l (propagate o l (propagate o l l.close))
      let l := if c.s1in then { l.log (.shutdown .s1 .reading) with s1InClosed := true } else l
      let l := if c.s2in then { l.log (.shutdown .s2 .reading) with s2InClosed := true } else l
      let l := if c.s1out then { l.log (.shutdown .s1 .writing) with s1OutClosed := true } else l
      if c.s2out then { l.log (.shutdown .s2 .writing) with s2OutClosed := true } else l
    else l
  { l with close := {} }

/-- `last`, and the two calls after the loop. -/
def finish (l : Loop) : Loop :=
  { (l.log (.shutdown .s1 .both)).log (.shutdown .s2 .both) with exited := true }

/-- The body under `if ($n > 0)`. -/
def serve (o : Options) (x : Outcome) (wtr1 wtr2 wtw1 wtw2 : Bool) (l : Loop) : Loop :=
  let bits := l.selectBits x.ready wtr1 wtr2 wtw1 wtw2
  ((((l.readFrom1 o bits x.read1 wtr1).readFrom2 o bits x.read2 wtr2).writeTo1
    o bits x.write1 wtw1).writeTo2 o bits x.write2 wtw2).closing o

/-- One pass of the loop. -/
def iteration (o : Options) (l : Loop) (x : Outcome) : Loop :=
  let wtr1 := l.wtr1 o
  let (l, redo) := l.readPending1 o x wtr1
  if redo then l else
  let wtr2 := l.wtr2 o
  let (l, redo) := l.readPending2 o x wtr2
  if redo then l else
  let wtw1 := l.wtw1
  let wtw2 := l.wtw2
  if l.s1OutClosed && l.s2OutClosed then l.finish
  else if !(wtr1 || wtr2 || wtw1 || wtw2) then l.finish
  else if x.selected then l.serve o x wtr1 wtr2 wtw1 wtw2
  else l

/-- The loop takes no pass after it has been left. -/
def step (o : Options) (l : Loop) (x : Outcome) : Loop :=
  if l.exited then l else l.iteration o x

end Loop

/-- `forward_sockets` under a schedule of outcomes, one for each pass. -/
def forwardSockets (o : Options) (buffer1to2 buffer2to1 : List Byte) (xs : List Outcome) : Loop :=
  xs.foldl (Loop.step o) (start o buffer1to2 buffer2to1)

/-! ### Calls are only added -/

@[simp] theorem noData1_calls (l : Loop) : l.noData1.calls = l.calls := by
  unfold Loop.noData1
  split <;> rfl

@[simp] theorem noData2_calls (l : Loop) : l.noData2.calls = l.calls := by
  unfold Loop.noData2
  split <;> rfl

theorem readFrom1_calls (o : Options) (bits : Bits) (r : ReadResult) (w : Bool) (l : Loop) :
    l.calls <+: (l.readFrom1 o bits r w).calls := by
  unfold Loop.readFrom1 Loop.log
  repeat' split
  all_goals simp

theorem readFrom2_calls (o : Options) (bits : Bits) (r : ReadResult) (w : Bool) (l : Loop) :
    l.calls <+: (l.readFrom2 o bits r w).calls := by
  unfold Loop.readFrom2 Loop.log
  repeat' split
  all_goals simp

@[simp] theorem shutdownUnless_calls (ssl : Bool) (s : Side) (l : Loop) :
    (l.shutdownUnless ssl s).calls = l.calls ++ if ssl then [] else [.shutdown s .writing] := by
  cases ssl <;> simp [Loop.shutdownUnless, Loop.log]

/-- A write that is tried is logged with what it offered. -/
theorem writeTo1_calls (o : Options) (bits : Bits) (r : WriteResult) (w : Bool) (l : Loop) :
    l.calls ++ (if w && (if l.sslWtr1 then bits.r1 else bits.w1) then
      [.syswrite .s1 (l.b2to1.take o.ioChunkSize) r] else []) <+:
        (l.writeTo1 o bits r w).calls := by
  unfold Loop.writeTo1
  generalize (w && if l.sslWtr1 = true then bits.r1 else bits.w1) = tried
  cases tried with
  | false => simp
  | true =>
    simp only [if_true]
    repeat' split
    all_goals simp [Loop.log]

/-- The write to s1 leaves the other direction alone. -/
theorem writeTo1_frame (o : Options) (bits : Bits) (r : WriteResult) (w : Bool) (l : Loop) :
    (l.writeTo1 o bits r w).b1to2 = l.b1to2 ∧
      (l.writeTo1 o bits r w).writeChunkSize2 = l.writeChunkSize2 ∧
      (l.writeTo1 o bits r w).sslWtr2 = l.sslWtr2 := by
  unfold Loop.writeTo1 Loop.shutdownUnless
  generalize (w && if l.sslWtr1 = true then bits.r1 else bits.w1) = tried
  cases tried with
  | false => exact ⟨rfl, rfl, rfl⟩
  | true =>
    simp only [if_true]
    repeat' split
    all_goals exact ⟨rfl, rfl, rfl⟩

theorem writeTo2_calls (o : Options) (bits : Bits) (r : WriteResult) (w : Bool) (l : Loop) :
    l.calls ++ (if w && (if l.sslWtr2 then bits.r2 else bits.w2) then
      [.syswrite .s2 (l.b1to2.take l.writeChunkSize2) r] else []) <+:
        (l.writeTo2 o bits r w).calls := by
  unfold Loop.writeTo2
  generalize (w && if l.sslWtr2 = true then bits.r2 else bits.w2) = tried
  cases tried with
  | false => simp
  | true =>
    simp only [if_true]
    repeat' split
    all_goals simp [Loop.log]

theorem closing_calls (o : Options) (l : Loop) : l.calls <+: (l.closing o).calls := by
  unfold Loop.closing
  generalize Loop.propagate o l _ = c
  rcases c with ⟨c1in, _, c2in, c1out, c2out⟩
  cases l.close.any <;> cases c1in <;> cases c2in <;> cases c1out <;> cases c2out <;>
    simp [Loop.log]

theorem serve_calls (o : Options) (x : Outcome) (r1 r2 w1 w2 : Bool) (l : Loop) :
    l.calls <+: (l.serve o x r1 r2 w1 w2).calls := by
  dsimp only [Loop.serve]
  generalize l.selectBits x.ready r1 r2 w1 w2 = bits
  refine (readFrom1_calls o bits x.read1 r1 l).trans ?_
  refine (readFrom2_calls o bits x.read2 r2 _).trans ?_
  refine ((List.prefix_append _ _).trans (writeTo1_calls o bits x.write1 w1 _)).trans ?_
  exact ((List.prefix_append _ _).trans (writeTo2_calls o bits x.write2 w2 _)).trans
    (closing_calls o _)

theorem readPending1_calls (o : Options) (x : Outcome) (w : Bool) (l : Loop) :
    l.calls <+: (l.readPending1 o x w).1.calls := by
  unfold Loop.readPending1 Loop.log
  repeat' split
  all_goals simp

theorem readPending2_calls (o : Options) (x : Outcome) (w : Bool) (l : Loop) :
    l.calls <+: (l.readPending2 o x w).1.calls := by
  unfold Loop.readPending2 Loop.log
  repeat' split
  all_goals simp

theorem finish_calls (l : Loop) : l.calls <+: l.finish.calls := by
  simp [Loop.finish, Loop.log]

theorem iteration_calls (o : Options) (l : Loop) (x : Outcome) :
    l.calls <+: (l.iteration o x).calls := by
  have h1 := readPending1_calls o x (l.wtr1 o) l
  unfold Loop.iteration
  simp only
  generalize l.readPending1 o x (l.wtr1 o) = p at h1 ⊢
  have h2 := readPending2_calls o x (p.1.wtr2 o) p.1
  generalize p.1.readPending2 o x (p.1.wtr2 o) = q at h2 ⊢
  repeat' split
  · exact h1
  · exact h1.trans h2
  · exact (h1.trans h2).trans (finish_calls q.1)
  · exact (h1.trans h2).trans (finish_calls q.1)
  · exact (h1.trans h2).trans (serve_calls o x _ _ _ _ q.1)
  · exact h1.trans h2

theorem step_calls (o : Options) (l : Loop) (x : Outcome) :
    l.calls <+: (l.step o x).calls := by
  unfold Loop.step
  split
  · exact List.prefix_rfl
  · exact iteration_calls o l x

theorem forwardSockets_append (o : Options) (buffer1to2 buffer2to1 : List Byte)
    (xs ys : List Outcome) :
    forwardSockets o buffer1to2 buffer2to1 (xs ++ ys) =
      ys.foldl (Loop.step o) (forwardSockets o buffer1to2 buffer2to1 xs) :=
  List.foldl_append

theorem foldl_calls (o : Options) (xs : List Outcome) (l : Loop) :
    l.calls <+: (xs.foldl (Loop.step o) l).calls := by
  induction xs generalizing l with
  | nil => exact List.prefix_rfl
  | cons x xs ih => exact (step_calls o l x).trans (ih _)

/-- A longer schedule only adds calls. -/
theorem forwardSockets_calls_mono (o : Options) (buffer1to2 buffer2to1 : List Byte)
    {xs ys : List Outcome} (h : xs <+: ys) :
    (forwardSockets o buffer1to2 buffer2to1 xs).calls <+:
      (forwardSockets o buffer1to2 buffer2to1 ys).calls := by
  obtain ⟨zs, rfl⟩ := h
  rw [forwardSockets_append]
  exact foldl_calls o zs _

end Qvd.SocketForwarder
