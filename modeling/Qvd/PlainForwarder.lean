import Mathlib.Data.List.Basic
import Qvd.HalfRelay
import Qvd.SocketForwarder

/-!
One pass of `forward_sockets` over two plain sockets whose reads and writes do
not fail. The pass is computed in closed form, and each direction of it is a
round of a half relay: the direction from s2 to s1 uses the intended rule for
closing, the one from s1 to s2 the inverted rule.
-/
namespace Qvd.PlainForwarder

open SocketForwarder HalfRelay

/-! ### The history kept in the call log -/

def ReadResult.bytes : ReadResult → List Byte
  | .data b bs => b :: bs
  | _ => []

def Call.readFrom (s : Side) : Call → List Byte
  | .sysread t r => if t = s then ReadResult.bytes r else []
  | _ => []

def Call.writtenTo (s : Side) : Call → List Byte
  | .syswrite t offered (.wrote n) => if t = s then offered.take n else []
  | _ => []

def Call.isEof (s : Side) : Call → Bool
  | .sysread t .eof => decide (t = s)
  | _ => false

def Call.shutsOut (s : Side) : Call → Bool
  | .shutdown t .writing => decide (t = s)
  | .shutdown t .both => decide (t = s)
  | _ => false

def bytesRead (s : Side) (calls : List Call) : List Byte := calls.flatMap (Call.readFrom s)

def bytesWritten (s : Side) (calls : List Call) : List Byte := calls.flatMap (Call.writtenTo s)

def eofSeen (s : Side) (calls : List Call) : Bool := calls.any (Call.isEof s)

def outShut (s : Side) (calls : List Call) : Bool := calls.any (Call.shutsOut s)

/-- A read gave data or end of file; a write took some of what was offered. -/
def Call.Clean : Call → Prop
  | .sysread _ (.error _) => False
  | .sysread _ _ => True
  | .syswrite _ offered (.wrote n) => 0 < n ∧ n ≤ offered.length
  | .syswrite _ _ (.error _) => False
  | .shutdown _ _ => True

instance : DecidablePred Call.Clean := fun c => by
  unfold Call.Clean
  split <;> infer_instance

theorem bytesRead_append (s : Side) (cs ds : List Call) :
    bytesRead s (cs ++ ds) = bytesRead s cs ++ bytesRead s ds := List.flatMap_append

theorem bytesWritten_append (s : Side) (cs ds : List Call) :
    bytesWritten s (cs ++ ds) = bytesWritten s cs ++ bytesWritten s ds := List.flatMap_append

theorem eofSeen_append (s : Side) (cs ds : List Call) :
    eofSeen s (cs ++ ds) = (eofSeen s cs || eofSeen s ds) := List.any_append

theorem outShut_append (s : Side) (cs ds : List Call) :
    outShut s (cs ++ ds) = (outShut s cs || outShut s ds) := List.any_append

/-! ### A pass over two plain sockets -/

/-- The bookkeeping that only SSL sockets use is at rest, and no close is
pending between passes. -/
structure Plain (l : Loop) : Prop where
  wtr1 : l.sslWtr1 = false
  wtw1 : l.sslWtw1 = false
  wtr2 : l.sslWtr2 = false
  wtw2 : l.sslWtw2 = false
  close : l.close = {}

def arrived (reads : Bool) (r : ReadResult) : List Byte :=
  if reads then ReadResult.bytes r else []

def ended (reads : Bool) (r : ReadResult) : Bool := reads && (ReadResult.bytes r).isEmpty

def taken (writes : Bool) (r : WriteResult) : ℕ :=
  match writes, r with
  | true, .wrote n => n
  | _, _ => 0

def readCalls (s : Side) (reads : Bool) (r : ReadResult) : List Call :=
  if reads then [.sysread s r] else []

def shutCalls (s : Side) (how : How) (shuts : Bool) : List Call :=
  if shuts then [.shutdown s how] else []

def writeCalls (s : Side) (writes : Bool) (offered : List Byte) (r : WriteResult)
    (shuts : Bool) : List Call :=
  if writes then .syswrite s offered r :: shutCalls s .writing shuts else []

theorem readFrom1_plain (o : Options) (bits : Bits) (r : ReadResult) (w : Bool) (l : Loop)
    (hssl : o.ssl1 = false) (hw : l.sslWtw1 = false) :
    l.readFrom1 o bits r w =
      { l with
        b1to2 := l.b1to2 ++ arrived (w && bits.r1) r
        close.s1in := l.close.s1in || ended (w && bits.r1) r
        calls := l.calls ++ readCalls .s1 (w && bits.r1) r } := by
  rcases l with ⟨⟩
  cases hreads : (w && bits.r1) <;> cases r <;>
    simp_all [Loop.readFrom1, Loop.log, Loop.noData1, arrived, ended, readCalls,
      ReadResult.bytes]

theorem readFrom2_plain (o : Options) (bits : Bits) (r : ReadResult) (w : Bool) (l : Loop)
    (hssl : o.ssl2 = false) (hw : l.sslWtw2 = false) :
    l.readFrom2 o bits r w =
      { l with
        b2to1 := l.b2to1 ++ arrived (w && bits.r2) r
        close.s2in := l.close.s2in || ended (w && bits.r2) r
        calls := l.calls ++ readCalls .s2 (w && bits.r2) r } := by
  rcases l with ⟨⟩
  cases hreads : (w && bits.r2) <;> cases r <;>
    simp_all [Loop.readFrom2, Loop.log, Loop.noData2, arrived, ended, readCalls,
      ReadResult.bytes]

/-- A write to s1 closes its out side when s2 has ended and nothing is left. -/
def drains1 (l : Loop) (writes : Bool) (r : WriteResult) : Bool :=
  writes && l.s2InClosed && (l.b2to1.drop (taken writes r)).isEmpty

/-- A write to s2 closes its out side when s1 has ended and something is left. -/
def drains2 (l : Loop) (writes : Bool) (r : WriteResult) : Bool :=
  writes && l.s1InClosed && !(l.b1to2.drop (taken writes r)).isEmpty

theorem writeTo1_plain (o : Options) (bits : Bits) (r : WriteResult) (w : Bool) (l : Loop)
    (hssl : o.ssl1 = false) (hw : l.sslWtr1 = false)
    (hclean : (w && bits.w1) = true → ∃ n, r = .wrote (n + 1)) :
    l.writeTo1 o bits r w =
      { l with
        b2to1 := l.b2to1.drop (taken (w && bits.w1) r)
        writeChunkSize1 := if w && bits.w1 then o.ioChunkSize else l.writeChunkSize1
        s1OutClosed := l.s1OutClosed || drains1 l (w && bits.w1) r
        calls := l.calls ++ writeCalls .s1 (w && bits.w1) (l.b2to1.take o.ioChunkSize) r
          (drains1 l (w && bits.w1) r) } := by
  cases hwrites : (w && bits.w1)
  · rcases l with ⟨⟩
    simp_all [Loop.writeTo1, taken, drains1, writeCalls]
  · obtain ⟨n, rfl⟩ := hclean hwrites
    rcases l with ⟨b12, b21, c1, c2, i1, i2, o1, o2, _, _, _, _, _, _, _⟩
    simp only [Loop.writeTo1, hw, hssl, Bool.false_eq_true, if_false, if_true, Loop.log,
      Loop.shutdownUnless, taken, drains1, Bool.true_and, writeCalls, shutCalls]
    generalize b21.drop (n + 1) = left
    cases i2 <;> cases left <;> simp_all

theorem writeTo2_plain (o : Options) (bits : Bits) (r : WriteResult) (w : Bool) (l : Loop)
    (hssl : o.ssl2 = false) (hw : l.sslWtr2 = false)
    (hclean : (w && bits.w2) = true → ∃ n, r = .wrote (n + 1)) :
    l.writeTo2 o bits r w =
      { l with
        b1to2 := l.b1to2.drop (taken (w && bits.w2) r)
        writeChunkSize2 := if w && bits.w2 then o.ioChunkSize else l.writeChunkSize2
        s2OutClosed := l.s2OutClosed || drains2 l (w && bits.w2) r
        calls := l.calls ++ writeCalls .s2 (w && bits.w2) (l.b1to2.take l.writeChunkSize2) r
          (drains2 l (w && bits.w2) r) } := by
  cases hwrites : (w && bits.w2)
  · rcases l with ⟨⟩
    simp_all [Loop.writeTo2, taken, drains2, writeCalls]
  · obtain ⟨n, rfl⟩ := hclean hwrites
    rcases l with ⟨b12, b21, c1, c2, i1, i2, o1, o2, _, _, _, _, _, _, _⟩
    simp only [Loop.writeTo2, hw, hssl, Bool.false_eq_true, if_false, if_true, Loop.log,
      Loop.shutdownUnless, taken, drains2, Bool.true_and, writeCalls, shutCalls]
    generalize b12.drop (n + 1) = left
    cases i1 <;> cases left <;> simp_all

/-- When only the in sides have ended, an out side closes with its buffer empty. -/
theorem closing_plain (o : Options) (l : Loop) (e1 e2 : Bool)
    (hssl1 : o.ssl1 = false) (hssl2 : o.ssl2 = false)
    (hclose : l.close = { s1in := e1, s2in := e2 }) :
    l.closing o =
      { l with
        s1InClosed := l.s1InClosed || e1
        s2InClosed := l.s2InClosed || e2
        s1OutClosed := l.s1OutClosed || (e2 && l.b2to1.isEmpty)
        s2OutClosed := l.s2OutClosed || (e1 && l.b1to2.isEmpty)
        close := {}
        calls := l.calls ++ shutCalls .s1 .reading e1 ++ shutCalls .s2 .reading e2 ++
          shutCalls .s1 .writing (e2 && l.b2to1.isEmpty) ++
          shutCalls .s2 .writing (e1 && l.b1to2.isEmpty) } := by
  rcases l with ⟨b12, b21, c1, c2, i1, i2, o1, o2, _, _, _, _, _, _, _⟩
  subst hclose
  cases e1 <;> cases e2 <;> cases b12 <;> cases b21 <;>
    simp [Loop.closing, Close.any, Loop.propagate, Loop.log, hssl1, hssl2, shutCalls]

/-- The pass reads from s1, reads from s2, writes to s1, writes to s2. -/
def reads1 (o : Options) (l : Loop) (x : Outcome) : Bool := l.wtr1 o && x.ready.r1

def reads2 (o : Options) (l : Loop) (x : Outcome) : Bool := l.wtr2 o && x.ready.r2

def writes1 (l : Loop) (x : Outcome) : Bool := l.wtw1 && x.ready.w1

def writes2 (l : Loop) (x : Outcome) : Bool := l.wtw2 && x.ready.w2

def afterReads (o : Options) (l : Loop) (x : Outcome) : Loop :=
  { l with
    b1to2 := l.b1to2 ++ arrived (reads1 o l x) x.read1
    b2to1 := l.b2to1 ++ arrived (reads2 o l x) x.read2
    close := { s1in := ended (reads1 o l x) x.read1, s2in := ended (reads2 o l x) x.read2 }
    calls := l.calls ++ readCalls .s1 (reads1 o l x) x.read1 ++
      readCalls .s2 (reads2 o l x) x.read2 }

/-- The reads and writes tried in the pass do not fail. -/
structure CleanPass (o : Options) (l : Loop) (x : Outcome) : Prop where
  read1 : reads1 o l x = true → ∀ e, x.read1 ≠ .error e
  read2 : reads2 o l x = true → ∀ e, x.read2 ≠ .error e
  write1 : writes1 l x = true →
    ∃ n, x.write1 = .wrote (n + 1) ∧
      n + 1 ≤ ((afterReads o l x).b2to1.take o.ioChunkSize).length
  write2 : writes2 l x = true →
    ∃ n, x.write2 = .wrote (n + 1) ∧
      n + 1 ≤ ((afterReads o l x).b1to2.take l.writeChunkSize2).length

def afterWrites (o : Options) (l : Loop) (x : Outcome) : Loop :=
  let a := afterReads o l x
  { a with
    b1to2 := a.b1to2.drop (taken (writes2 l x) x.write2)
    b2to1 := a.b2to1.drop (taken (writes1 l x) x.write1)
    writeChunkSize1 := if writes1 l x then o.ioChunkSize else l.writeChunkSize1
    writeChunkSize2 := if writes2 l x then o.ioChunkSize else l.writeChunkSize2
    s1OutClosed := l.s1OutClosed || drains1 a (writes1 l x) x.write1
    s2OutClosed := l.s2OutClosed || drains2 a (writes2 l x) x.write2
    calls := a.calls ++
      writeCalls .s1 (writes1 l x) (a.b2to1.take o.ioChunkSize) x.write1
        (drains1 a (writes1 l x) x.write1) ++
      writeCalls .s2 (writes2 l x) (a.b1to2.take l.writeChunkSize2) x.write2
        (drains2 a (writes2 l x) x.write2) }

def afterClosing (o : Options) (l : Loop) (x : Outcome) : Loop :=
  let b := afterWrites o l x
  let e1 := ended (reads1 o l x) x.read1
  let e2 := ended (reads2 o l x) x.read2
  { b with
    s1InClosed := l.s1InClosed || e1
    s2InClosed := l.s2InClosed || e2
    s1OutClosed := b.s1OutClosed || (e2 && b.b2to1.isEmpty)
    s2OutClosed := b.s2OutClosed || (e1 && b.b1to2.isEmpty)
    close := {}
    calls := b.calls ++ shutCalls .s1 .reading e1 ++ shutCalls .s2 .reading e2 ++
      shutCalls .s1 .writing (e2 && b.b2to1.isEmpty) ++
      shutCalls .s2 .writing (e1 && b.b1to2.isEmpty) }

section PlainPass

variable (o : Options) (l : Loop) (x : Outcome)
  (hssl1 : o.ssl1 = false) (hssl2 : o.ssl2 = false) (hplain : Plain l)

include hplain in
theorem selectBits_plain :
    l.selectBits x.ready (l.wtr1 o) (l.wtr2 o) l.wtw1 l.wtw2 =
      { r1 := reads1 o l x, r2 := reads2 o l x, w1 := writes1 l x, w2 := writes2 l x } := by
  simp [Loop.selectBits, hplain.wtr1, hplain.wtw1, hplain.wtr2, hplain.wtw2, reads1, reads2,
    writes1, writes2]

@[simp] theorem wtr1_and_reads1 : (l.wtr1 o && reads1 o l x) = reads1 o l x := by
  simp [reads1]

@[simp] theorem wtr2_and_reads2 : (l.wtr2 o && reads2 o l x) = reads2 o l x := by
  simp [reads2]

@[simp] theorem wtw1_and_writes1 : (l.wtw1 && writes1 l x) = writes1 l x := by
  simp [writes1]

@[simp] theorem wtw2_and_writes2 : (l.wtw2 && writes2 l x) = writes2 l x := by
  simp [writes2]

/-- The bits of a plain pass. -/
def passBits : Bits where
  r1 := reads1 o l x
  r2 := reads2 o l x
  w1 := writes1 l x
  w2 := writes2 l x

include hssl1 hssl2 hplain in
theorem readFrom_plain :
    (l.readFrom1 o (passBits o l x) x.read1 (l.wtr1 o)).readFrom2 o (passBits o l x) x.read2
      (l.wtr2 o) = afterReads o l x := by
  rw [readFrom1_plain o _ _ _ _ hssl1 hplain.wtw1, readFrom2_plain o _ _ _ _ hssl2]
  · simp [passBits, hplain.close, afterReads]
  · exact hplain.wtw2

include hssl1 hssl2 hplain in
theorem writeTo_plain (hw1 : writes1 l x = true → ∃ n, x.write1 = .wrote (n + 1))
    (hw2 : writes2 l x = true → ∃ n, x.write2 = .wrote (n + 1)) :
    ((afterReads o l x).writeTo1 o (passBits o l x) x.write1 l.wtw1).writeTo2 o (passBits o l x)
      x.write2 l.wtw2 = afterWrites o l x := by
  rw [writeTo1_plain o _ _ _ _ hssl1, writeTo2_plain o _ _ _ _ hssl2]
  · simp [passBits, afterWrites, drains1, drains2, afterReads]
  · exact hplain.wtr2
  · simpa [passBits] using hw2
  · exact hplain.wtr1
  · simpa [passBits] using hw1

include hssl1 hssl2 hplain in
theorem serve_plain (hclean : CleanPass o l x) :
    l.serve o x (l.wtr1 o) (l.wtr2 o) l.wtw1 l.wtw2 = afterClosing o l x := by
  have hw1 : writes1 l x = true → ∃ n, x.write1 = .wrote (n + 1) := fun h =>
    (hclean.write1 h).imp fun _ hn => hn.1
  have hw2 : writes2 l x = true → ∃ n, x.write2 = .wrote (n + 1) := fun h =>
    (hclean.write2 h).imp fun _ hn => hn.1
  dsimp only [Loop.serve]
  rw [selectBits_plain o l x hplain]
  change (((((l.readFrom1 o (passBits o l x) _ _).readFrom2 o (passBits o l x) _ _).writeTo1 o
    (passBits o l x) _ _).writeTo2 o (passBits o l x) _ _).closing o) = _
  rw [readFrom_plain o l x hssl1 hssl2 hplain, writeTo_plain o l x hssl1 hssl2 hplain hw1 hw2]
  exact closing_plain o _ (ended (reads1 o l x) x.read1) (ended (reads2 o l x) x.read2)
    hssl1 hssl2 rfl

include hssl1 hssl2 hplain in
/-- All that a pass tried is in its log. -/
theorem serve_logs :
    (afterReads o l x).calls <+: (l.serve o x (l.wtr1 o) (l.wtr2 o) l.wtw1 l.wtw2).calls ∧
    (writes1 l x = true → .syswrite .s1 ((afterReads o l x).b2to1.take o.ioChunkSize) x.write1 ∈
      (l.serve o x (l.wtr1 o) (l.wtr2 o) l.wtw1 l.wtw2).calls) ∧
    (writes2 l x = true → .syswrite .s2 ((afterReads o l x).b1to2.take l.writeChunkSize2)
      x.write2 ∈ (l.serve o x (l.wtr1 o) (l.wtr2 o) l.wtw1 l.wtw2).calls) := by
  dsimp only [Loop.serve]
  rw [selectBits_plain o l x hplain]
  change _ <+: (((((l.readFrom1 o (passBits o l x) _ _).readFrom2 o (passBits o l x) _ _).writeTo1
    o (passBits o l x) _ _).writeTo2 o (passBits o l x) _ _).closing o).calls ∧
    (_ → _ ∈ (((((l.readFrom1 o (passBits o l x) _ _).readFrom2 o (passBits o l x) _ _).writeTo1
    o (passBits o l x) _ _).writeTo2 o (passBits o l x) _ _).closing o).calls) ∧
    (_ → _ ∈ (((((l.readFrom1 o (passBits o l x) _ _).readFrom2 o (passBits o l x) _ _).writeTo1
    o (passBits o l x) _ _).writeTo2 o (passBits o l x) _ _).closing o).calls)
  rw [readFrom_plain o l x hssl1 hssl2 hplain]
  have h1 := writeTo1_calls o (passBits o l x) x.write1 l.wtw1 (afterReads o l x)
  have h2 := writeTo2_calls o (passBits o l x) x.write2 l.wtw2
    ((afterReads o l x).writeTo1 o (passBits o l x) x.write1 l.wtw1)
  have h3 := closing_calls o (((afterReads o l x).writeTo1 o (passBits o l x) x.write1
    l.wtw1).writeTo2 o (passBits o l x) x.write2 l.wtw2)
  have hr1 : (afterReads o l x).sslWtr1 = false := hplain.wtr1
  have hr2 : (afterReads o l x).sslWtr2 = false := hplain.wtr2
  refine ⟨?_, fun hw => ?_, fun hw => ?_⟩
  · exact (List.prefix_append _ _).trans (h1.trans ((List.prefix_append _ _).trans (h2.trans h3)))
  · refine ((List.prefix_append _ _).trans (h2.trans h3)).subset (h1.subset ?_)
    have hwtw : l.wtw1 = true := (Bool.and_eq_true_iff.mp hw).1
    simp [hr1, passBits, hw, hwtw]
  · obtain ⟨hb, hsize, hssl⟩ :=
      writeTo1_frame o (passBits o l x) x.write1 l.wtw1 (afterReads o l x)
    rw [hb, hsize, hssl, hr2] at h2
    have hwtw : l.wtw2 = true := (Bool.and_eq_true_iff.mp hw).1
    refine h3.subset (h2.subset ?_)
    simp [passBits, hw, hwtw, afterReads]

include hssl1 hssl2 hplain in
theorem cleanPass_of_calls
    (hclean : ∀ c ∈ (l.serve o x (l.wtr1 o) (l.wtr2 o) l.wtw1 l.wtw2).calls, Call.Clean c) :
    CleanPass o l x := by
  obtain ⟨hreads, hlog1, hlog2⟩ := serve_logs o l x hssl1 hssl2 hplain
  refine ⟨fun hr e he => ?_, fun hr e he => ?_, fun hw => ?_, fun hw => ?_⟩
  · have hmem : Call.sysread .s1 x.read1 ∈ (afterReads o l x).calls := by
      simp [afterReads, readCalls, hr]
    simpa [he, Call.Clean] using hclean _ (hreads.subset hmem)
  · have hmem : Call.sysread .s2 x.read2 ∈ (afterReads o l x).calls := by
      simp [afterReads, readCalls, hr]
    simpa [he, Call.Clean] using hclean _ (hreads.subset hmem)
  · have h := hclean _ (hlog1 hw)
    rcases hres : x.write1 with (_ | n) | e
    · simp [hres, Call.Clean] at h
    · exact ⟨n, rfl, by simpa [hres, Call.Clean] using h⟩
    · simp [hres, Call.Clean] at h
  · have h := hclean _ (hlog2 hw)
    rcases hres : x.write2 with (_ | n) | e
    · simp [hres, Call.Clean] at h
    · exact ⟨n, rfl, by simpa [hres, Call.Clean] using h⟩
    · simp [hres, Call.Clean] at h

end PlainPass

/-! ### Each direction is a half relay -/

def relay1to2 (buffer1to2 : List Byte) (l : Loop) : Relay Byte where
  pending := l.b1to2
  inClosed := l.s1InClosed
  outClosed := l.s2OutClosed
  received := buffer1to2 ++ bytesRead .s1 l.calls
  delivered := bytesWritten .s2 l.calls

def relay2to1 (buffer2to1 : List Byte) (l : Loop) : Relay Byte where
  pending := l.b2to1
  inClosed := l.s2InClosed
  outClosed := l.s1OutClosed
  received := buffer2to1 ++ bytesRead .s2 l.calls
  delivered := bytesWritten .s1 l.calls

def round1to2 (o : Options) (l : Loop) (x : Outcome) : Round Byte where
  arrived := arrived (reads1 o l x) x.read1
  ended := ended (reads1 o l x) x.read1
  taken := taken (writes2 l x) x.write2

def round2to1 (o : Options) (l : Loop) (x : Outcome) : Round Byte where
  arrived := arrived (reads2 o l x) x.read2
  ended := ended (reads2 o l x) x.read2
  taken := taken (writes1 l x) x.write1

@[simp] theorem bytesRead_readCalls (s t : Side) (b : Bool) (r : ReadResult) :
    bytesRead s (readCalls t b r) = if t = s then arrived b r else [] := by
  cases b <;> by_cases h : t = s <;> simp [bytesRead, readCalls, Call.readFrom, arrived, h]

@[simp] theorem bytesRead_shutCalls (s t : Side) (how : How) (b : Bool) :
    bytesRead s (shutCalls t how b) = [] := by
  cases b <;> simp [bytesRead, shutCalls, Call.readFrom]

@[simp] theorem bytesRead_writeCalls (s t : Side) (b : Bool) (offered : List Byte)
    (r : WriteResult) (shuts : Bool) : bytesRead s (writeCalls t b offered r shuts) = [] := by
  cases b <;> cases shuts <;> simp [bytesRead, writeCalls, shutCalls, Call.readFrom]

@[simp] theorem bytesWritten_readCalls (s t : Side) (b : Bool) (r : ReadResult) :
    bytesWritten s (readCalls t b r) = [] := by
  cases b <;> simp [bytesWritten, readCalls, Call.writtenTo]

@[simp] theorem bytesWritten_shutCalls (s t : Side) (how : How) (b : Bool) :
    bytesWritten s (shutCalls t how b) = [] := by
  cases b <;> simp [bytesWritten, shutCalls, Call.writtenTo]

@[simp] theorem bytesWritten_writeCalls (s t : Side) (b : Bool) (offered : List Byte)
    (r : WriteResult) (shuts : Bool) :
    bytesWritten s (writeCalls t b offered r shuts) =
      if t = s then offered.take (taken b r) else [] := by
  cases b <;> cases r <;> by_cases h : t = s <;> cases shuts <;>
    simp [bytesWritten, writeCalls, shutCalls, Call.writtenTo, taken, h]

@[simp] theorem eofSeen_shutCalls (s t : Side) (how : How) (b : Bool) :
    eofSeen s (shutCalls t how b) = false := by
  cases b <;> simp [eofSeen, shutCalls, Call.isEof]

@[simp] theorem eofSeen_writeCalls (s t : Side) (b : Bool) (offered : List Byte)
    (r : WriteResult) (shuts : Bool) : eofSeen s (writeCalls t b offered r shuts) = false := by
  cases b <;> cases shuts <;> simp [eofSeen, writeCalls, shutCalls, Call.isEof]

/-- On plain sockets a read that does not fail ends the input only at end of file. -/
theorem eofSeen_readCalls (s t : Side) (b : Bool) (r : ReadResult)
    (h : b = true → ∀ e, r ≠ .error e) :
    eofSeen s (readCalls t b r) = (decide (t = s) && ended b r) := by
  cases b <;> cases r <;>
    simp_all [eofSeen, readCalls, Call.isEof, ended, ReadResult.bytes]

@[simp] theorem outShut_readCalls (s t : Side) (b : Bool) (r : ReadResult) :
    outShut s (readCalls t b r) = false := by
  cases b <;> simp [outShut, readCalls, Call.shutsOut]

@[simp] theorem outShut_shutCalls_reading (s t : Side) (b : Bool) :
    outShut s (shutCalls t .reading b) = false := by
  cases b <;> simp [outShut, shutCalls, Call.shutsOut]

@[simp] theorem outShut_shutCalls_writing (s t : Side) (b : Bool) :
    outShut s (shutCalls t .writing b) = (decide (t = s) && b) := by
  cases b <;> simp [outShut, shutCalls, Call.shutsOut]

@[simp] theorem outShut_writeCalls (s t : Side) (b : Bool) (offered : List Byte)
    (r : WriteResult) (shuts : Bool) :
    outShut s (writeCalls t b offered r shuts) = (decide (t = s) && (b && shuts)) := by
  cases b <;> cases shuts <;> simp [outShut, writeCalls, shutCalls, Call.shutsOut]

/-- What a successful write takes of its offer is what it takes of the buffer. -/
theorem take_taken (q : List Byte) (chunk : ℕ) (b : Bool) (r : WriteResult)
    (h : b = true → ∃ n, r = .wrote (n + 1) ∧ n + 1 ≤ (q.take chunk).length) :
    (q.take chunk).take (taken b r) = q.take (taken b r) := by
  cases b with
  | false => simp [taken]
  | true =>
    obtain ⟨n, rfl, hn⟩ := h rfl
    have hchunk : n + 1 ≤ chunk := Nat.le_trans hn (List.length_take_le ..)
    simp [taken, List.take_take, Nat.min_eq_left hchunk]

theorem taken_pos (b : Bool) (r : WriteResult) (h : b = true → ∃ n, r = .wrote (n + 1)) :
    decide (0 < taken b r) = b := by
  cases b with
  | false => simp [taken]
  | true =>
    obtain ⟨n, rfl⟩ := h rfl
    simp [taken]

theorem taken_le (q : List Byte) (chunk : ℕ) (b : Bool) (r : WriteResult)
    (h : b = true → ∃ n, r = .wrote (n + 1) ∧ n + 1 ≤ (q.take chunk).length) :
    taken b r ≤ q.length := by
  cases b with
  | false => simp [taken]
  | true =>
    obtain ⟨n, rfl, hn⟩ := h rfl
    exact Nat.le_trans hn (List.length_take_le' ..)

theorem ended_arrived (b : Bool) (r : ReadResult) (h : ended b r = true) : arrived b r = [] := by
  cases b <;> cases r <;> simp_all [ended, arrived, ReadResult.bytes]

section Refinement

variable (o : Options) (l : Loop) (x : Outcome) (hclean : CleanPass o l x)

include hclean

/-- The pass closes s2's out side by the inverted rule. -/
theorem relay1to2_afterClosing (buffer1to2 : List Byte) :
    relay1to2 buffer1to2 (afterClosing o l x) =
      (relay1to2 buffer1to2 l).round (fun q => !q.isEmpty) (round1to2 o l x) := by
  have hpos : decide (0 < (round1to2 o l x).taken) = writes2 l x :=
    taken_pos _ _ fun h => (hclean.write2 h).imp fun _ hn => hn.1
  have htake := take_taken _ _ _ _ hclean.write2
  simp only [afterReads] at htake
  rw [Relay.round, hpos]
  simp [relay1to2, round1to2, Relay.left, Relay.queued, afterClosing, afterWrites, afterReads,
    bytesRead_append, bytesWritten_append, htake, drains2]

/-- The pass closes s1's out side by the intended rule. -/
theorem relay2to1_afterClosing (buffer2to1 : List Byte) :
    relay2to1 buffer2to1 (afterClosing o l x) =
      (relay2to1 buffer2to1 l).round List.isEmpty (round2to1 o l x) := by
  have hpos : decide (0 < (round2to1 o l x).taken) = writes1 l x :=
    taken_pos _ _ fun h => (hclean.write1 h).imp fun _ hn => hn.1
  have htake := take_taken _ _ _ _ hclean.write1
  simp only [afterReads] at htake
  rw [Relay.round, hpos]
  simp [relay2to1, round2to1, Relay.left, Relay.queued, afterClosing, afterWrites, afterReads,
    bytesRead_append, bytesWritten_append, htake, drains1]

theorem round1to2_legal (buffer1to2 : List Byte) :
    (relay1to2 buffer1to2 l).Legal (round1to2 o l x) where
  in_closed h := by
    have h : l.s1InClosed = true := h
    simp [round1to2, reads1, Loop.wtr1, h, arrived, ended]
  out_closed h := by
    have h : l.s2OutClosed = true := h
    simp [round1to2, writes2, Loop.wtw2, h, taken]
  arrived_or_ended h := ended_arrived _ _ h
  taken_le := taken_le _ _ _ _ hclean.write2

theorem round2to1_legal (buffer2to1 : List Byte) :
    (relay2to1 buffer2to1 l).Legal (round2to1 o l x) where
  in_closed h := by
    have h : l.s2InClosed = true := h
    simp [round2to1, reads2, Loop.wtr2, h, arrived, ended]
  out_closed h := by
    have h : l.s1OutClosed = true := h
    simp [round2to1, writes1, Loop.wtw1, h, taken]
  arrived_or_ended h := ended_arrived _ _ h
  taken_le := taken_le _ _ _ _ hclean.write1

end Refinement

end Qvd.PlainForwarder
