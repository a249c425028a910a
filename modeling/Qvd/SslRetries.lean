import Qvd.ForwarderPasses
import Mathlib.Data.List.Chain

/-!
The retry of an SSL write. The layer asks that a write it could not finish be repeated with the
same bytes; the buffer of the forwarder may have grown by then. A write to s1 offers as much of
the buffer as the chunk size allows. A write to s2 offers what was remembered when the last one
wanted to write, but nothing is remembered when it wanted to read.
-/
namespace Qvd.SslRetries

open Qvd.SocketForwarder Qvd.PlainForwarder Qvd.ForwarderDelivery Qvd.ForwarderPasses

/-! ### The property and the condition -/

/-- A write: what was offered and the answer. -/
abbrev Write := List Byte × WriteResult

/-- The writes to a side, in order. -/
def writesTo (s : Side) (calls : List Call) : List Write :=
  calls.filterMap fun
    | .syswrite t offered r => if t = s then some (offered, r) else none
    | _ => none

/-- `SSL_WANT_READ` or `SSL_WANT_WRITE`. -/
def wantsRetry : WriteResult → Bool
  | .error .wantRead => true
  | .error .wantWrite => true
  | _ => false

/-- `b`, the write after `a`, offers the same bytes if `a` is to be retried. -/
def Retries (a b : Write) : Prop := wantsRetry a.2 = true → b.1 = a.1

instance : DecidableRel Retries := fun a b =>
  inferInstanceAs (Decidable (wantsRetry a.2 = true → b.1 = a.1))

/-- All the writes to SSL sockets are retried with the bytes they offered. -/
def RetriesExactly (o : Options) (calls : List Call) : Prop :=
  (o.ssl1 = true → (writesTo .s1 calls).IsChain Retries) ∧
    (o.ssl2 = true → (writesTo .s2 calls).IsChain Retries)

/-- A write to s1 that is a retry: the write before it offered a whole chunk, or the whole buffer
and the buffer has not grown. -/
def KeepsOffer1 (o : Options) (l : Loop) (x : Outcome) : Prop :=
  o.ssl1 = true → serves o l x = true → triesWrite1 o l x = true →
    ∀ a ∈ (writesTo .s1 l.calls).getLast?, wantsRetry a.2 = true →
      o.ioChunkSize ≤ a.1.length ∨ (toWrite1 o l x).length ≤ a.1.length

/-- For s2 only a write that wanted to read counts. -/
def KeepsOffer2 (o : Options) (l : Loop) (x : Outcome) : Prop :=
  o.ssl2 = true → serves o l x = true → triesWrite2 o l x = true →
    ∀ a ∈ (writesTo .s2 l.calls).getLast?, a.2 = .error .wantRead →
      l.writeChunkSize2 ≤ a.1.length ∨ (toWrite2 o l x).length ≤ a.1.length

/-- From the loop `l` on, every retry keeps the offer. -/
def KeepsOffers (o : Options) : Loop → List Outcome → Prop
  | _, [] => True
  | l, x :: xs =>
    (l.exited = false → KeepsOffer1 o l x ∧ KeepsOffer2 o l x) ∧ KeepsOffers o (l.step o x) xs

/-! ### The log of the writes -/

section Log

variable (s : Side)

theorem writesTo_append (cs ds : List Call) :
    writesTo s (cs ++ ds) = writesTo s cs ++ writesTo s ds := List.filterMap_append

theorem writesTo_readCalls (t : Side) (b : Bool) (r : ReadResult) :
    writesTo s (readCalls t b r) = [] := by
  cases b <;> rfl

theorem writesTo_shutCalls (t : Side) (how : How) (b : Bool) :
    writesTo s (shutCalls t how b) = [] := by
  cases b <;> rfl

theorem writesTo_writeCalls (t : Side) (tried shuts : Bool) (offered : List Byte)
    (r : WriteResult) : writesTo s (writeCalls t tried offered r shuts) =
      if tried && t = s then [(offered, r)] else [] := by
  cases tried with
  | false => rfl
  | true =>
    rw [writeCalls, if_pos rfl, ← List.singleton_append, writesTo_append, writesTo_shutCalls,
      List.append_nil]
    by_cases hts : t = s <;> simp [writesTo, hts]

theorem writesTo_pendingCalls1 (o : Options) (l : Loop) (x : Outcome) :
    writesTo s (pendingCalls1 o l x) = [] := by
  unfold pendingCalls1
  cases x.pending1 with
  | none => rfl
  | some r => simp [writesTo_readCalls]

theorem writesTo_pendingCalls2 (o : Options) (l : Loop) (x : Outcome) :
    writesTo s (pendingCalls2 o l x) = [] := by
  unfold pendingCalls2
  cases x.pending2 with
  | none => rfl
  | some r => simp [writesTo_readCalls]

theorem writesTo_finish (l : Loop) : writesTo s l.finish.calls = writesTo s l.calls := by
  rw [Loop.finish, Loop.log, Loop.log]
  simp [writesTo]

/-- The closing block changes neither buffers nor remembered sizes, and writes nothing. -/
theorem closing_frame (o : Options) (l : Loop) :
    (l.closing o).b1to2 = l.b1to2 ∧ (l.closing o).b2to1 = l.b2to1 ∧
      (l.closing o).writeChunkSize2 = l.writeChunkSize2 ∧
      writesTo s (l.closing o).calls = writesTo s l.calls := by
  unfold Loop.closing
  generalize Loop.propagate o l _ = c
  rcases c with ⟨c1in, _, c2in, c1out, c2out⟩
  cases l.close.any <;> cases c1in <;> cases c2in <;> cases c1out <;> cases c2out <;>
    simp [Loop.log, writesTo]

end Log

/-! ### One pass -/

section Pass

variable {o : Options} {l : Loop} {x : Outcome} (hclose : l.close = {})

include hclose

/-- What a served pass leaves for s1 and for s2. -/
theorem served (hserves : serves o l x = true) :
    (l.iteration o x).b2to1 = (beforeClosing o l x).b2to1 ∧
      (l.iteration o x).b1to2 = (beforeClosing o l x).b1to2 ∧
      (l.iteration o x).writeChunkSize2 = (beforeClosing o l x).writeChunkSize2 ∧
      writesTo .s1 (l.iteration o x).calls = writesTo .s1 l.calls ++
        (if triesWrite1 o l x then [((toWrite1 o l x).take o.ioChunkSize, x.write1)] else []) ∧
      writesTo .s2 (l.iteration o x).calls = writesTo .s2 l.calls ++
        (if triesWrite2 o l x then [((toWrite2 o l x).take l.writeChunkSize2, x.write2)]
          else []) := by
  obtain ⟨hb1, hb2, hchunk, hw1⟩ := closing_frame .s1 o (beforeClosing o (atSelect o l x) x)
  obtain ⟨-, -, -, hw2⟩ := closing_frame .s2 o (beforeClosing o (atSelect o l x) x)
  rw [iteration_of_serves hclose hserves]
  refine ⟨hb2, hb1, hchunk, hw1.trans ?_, hw2.trans ?_⟩
  · simp only [beforeClosing, atSelect, passCalls, writesTo_append, writesTo_readCalls,
      writesTo_writeCalls, writesTo_pendingCalls1, writesTo_pendingCalls2]
    simp
    rfl
  · simp only [beforeClosing, atSelect, passCalls, writesTo_append, writesTo_readCalls,
      writesTo_writeCalls, writesTo_pendingCalls1, writesTo_pendingCalls2]
    simp
    rfl

omit hclose in
/-- A pass that is not served only adds to the buffers. -/
theorem not_served (hserves : serves o l x = false) :
    l.b2to1 <+: (l.iteration o x).b2to1 ∧ l.b1to2 <+: (l.iteration o x).b1to2 ∧
      (l.iteration o x).writeChunkSize2 = l.writeChunkSize2 ∧
      ∀ s, writesTo s (l.iteration o x).calls = writesTo s l.calls := by
  have hat (s : Side) : writesTo s (atSelect o l x).calls = writesTo s l.calls := by
    simp [atSelect, writesTo_append, writesTo_pendingCalls1, writesTo_pendingCalls2]
  rcases iteration_cases o l x with ⟨-, -, r, -, h⟩ | ⟨-, -, -, r, -, h⟩ | ⟨-, -, -, -, h⟩ |
    ⟨-, -, -, -, h⟩ | ⟨h, -⟩
  · rw [h]
    refine ⟨List.prefix_rfl, List.prefix_append _ _, rfl, fun s => ?_⟩
    exact (writesTo_append s _ _).trans (List.append_nil _)
  · rw [h]
    refine ⟨List.prefix_append _ _, List.prefix_rfl, rfl, fun s => ?_⟩
    simp only [writesTo_append, writesTo_pendingCalls1, List.append_nil]
    exact List.append_nil _
  · rw [h]
    exact ⟨List.prefix_rfl, List.prefix_rfl, rfl, fun s => (writesTo_finish s _).trans (hat s)⟩
  · rw [h]
    exact ⟨List.prefix_rfl, List.prefix_rfl, rfl, hat⟩
  · simp [h] at hserves

end Pass

/-! ### What is held for a retry -/

section Held

variable {o : Options} {l : Loop} {x : Outcome} {limit : ℕ} {buffer more : List Byte} {a : Write}

/-- A write to be retried offered the head of the buffer, and at most `limit` bytes of it. -/
def Held (limit : ℕ) (buffer : List Byte) (a : Write) : Prop :=
  wantsRetry a.2 = true → a.1 <+: buffer ∧ a.1.length ≤ limit

theorem Held.grow (h : Held limit buffer a) (hmore : buffer <+: more) : Held limit more a :=
  fun ha => ⟨(h ha).1.trans hmore, (h ha).2⟩

/-- The new offer is the old one if the old one was cut off by the limit or the buffer is still
as short. -/
theorem take_eq_iff {old : List Byte} (hbegins : old <+: buffer) (hlimit : old.length ≤ limit) :
    buffer.take limit = old ↔ limit ≤ old.length ∨ buffer.length ≤ old.length := by
  constructor
  · intro h
    have := congrArg List.length h
    rw [List.length_take] at this
    omega
  · rintro (h | h)
    · rw [Nat.le_antisymm h hlimit]
      exact (List.prefix_iff_eq_take.mp hbegins).symm
    · rw [hbegins.eq_of_length_le h, List.take_of_length_le (h.trans hlimit)]

/-- The invariant of a run: what is to be retried is still at the head of its buffer. -/
structure Holding (o : Options) (l : Loop) : Prop where
  close : l.close = {}
  held1 : ∀ a ∈ (writesTo .s1 l.calls).getLast?, o.ssl1 = true → Held o.ioChunkSize l.b2to1 a
  held2 : ∀ a ∈ (writesTo .s2 l.calls).getLast?, o.ssl2 = true →
    Held l.writeChunkSize2 l.b1to2 a ∧
      (a.2 = .error .wantWrite → l.writeChunkSize2 ≤ a.1.length)

theorem holding_start (o : Options) (buffer1to2 buffer2to1 : List Byte) :
    Holding o (start o buffer1to2 buffer2to1) where
  close := rfl
  held1 a ha := by simp [start, writesTo] at ha
  held2 a ha := by simp [start, writesTo] at ha

/-- After a write the offer is at the head of what is left, if it is to be retried. -/
theorem held_take (limit : ℕ) (buffer : List Byte) (r : WriteResult) :
    Held limit (buffer.drop (sent r)) (buffer.take limit, r) := by
  intro hr
  cases r with
  | wrote n => simp [wantsRetry] at hr
  | error e =>
    exact ⟨List.take_prefix _ _, by rw [List.length_take]; exact Nat.min_le_left _ _⟩

theorem held_nextChunk {length : ℕ} (hlength : length = buffer.length) (r : WriteResult) :
    Held (nextChunk o true length limit r) (buffer.drop (sent r)) (buffer.take limit, r) ∧
      (r = .error .wantWrite → nextChunk o true length limit r ≤ (buffer.take limit).length) := by
  have hwrite : nextChunk o true length limit (.error .wantWrite) = min limit buffer.length := by
    simp only [nextChunk, Bool.true_and, decide_eq_true_iff, hlength]
    split <;> omega
  constructor
  · intro hr
    refine ⟨(held_take limit buffer r hr).1, ?_⟩
    cases r with
    | wrote n => simp [wantsRetry] at hr
    | error e =>
      cases e with
      | wantRead => exact (held_take limit buffer _ hr).2
      | wantWrite => rw [hwrite, List.length_take]
      | other => simp [wantsRetry] at hr
  · rintro rfl
    rw [hwrite, List.length_take]

/-- One pass keeps the invariant. -/
theorem holding_iteration (h : Holding o l) : Holding o (l.iteration o x) where
  close := close_iteration h.close
  held1 a ha hssl := by
    cases hserves : serves o l x with
    | false =>
      obtain ⟨hb, -, -, hw⟩ := not_served (o := o) (l := l) (x := x) hserves
      rw [hw] at ha
      exact (h.held1 a ha hssl).grow hb
    | true =>
      obtain ⟨hb, -, -, hw, -⟩ := served h.close hserves
      rw [hw] at ha
      rw [hb, beforeClosing]
      cases htries : triesWrite1 o l x with
      | false =>
        rw [htries] at ha
        simp only [Bool.false_eq_true, if_false, List.append_nil] at ha ⊢
        exact (h.held1 a ha hssl).grow (List.prefix_append _ _)
      | true =>
        rw [htries] at ha
        simp only [if_true, List.getLast?_append, List.getLast?_singleton, Option.some_or,
          Option.mem_some_iff] at ha ⊢
        rw [← ha]
        exact held_take _ _ _
  held2 a ha hssl := by
    cases hserves : serves o l x with
    | false =>
      obtain ⟨-, hb, hchunk, hw⟩ := not_served (o := o) (l := l) (x := x) hserves
      rw [hw] at ha
      rw [hchunk]
      exact ⟨(h.held2 a ha hssl).1.grow hb, (h.held2 a ha hssl).2⟩
    | true =>
      obtain ⟨-, hb, hchunk, -, hw⟩ := served h.close hserves
      rw [hw] at ha
      rw [hb, hchunk, beforeClosing]
      cases htries : triesWrite2 o l x with
      | false =>
        rw [htries] at ha
        simp only [Bool.false_eq_true, if_false, List.append_nil] at ha ⊢
        exact ⟨(h.held2 a ha hssl).1.grow (List.prefix_append _ _), (h.held2 a ha hssl).2⟩
      | true =>
        rw [htries] at ha
        simp only [if_true, List.getLast?_append, List.getLast?_singleton, Option.some_or,
          Option.mem_some_iff, hssl] at ha ⊢
        rw [← ha]
        exact held_nextChunk rfl _

end Held

/-! ### Runs -/

section Runs

variable {o : Options} {l : Loop} {x : Outcome}

theorem isChain_append_singleton {ws : List Write} {b : Write} :
    (ws ++ [b]).IsChain Retries ↔
      ws.IsChain Retries ∧ ∀ a ∈ ws.getLast?, wantsRetry a.2 = true → b.1 = a.1 := by
  simp [List.isChain_append, Retries]

/-- A pass keeps to the rule on s1 exactly if it keeps the offer. -/
theorem isChain1_iteration (h : Holding o l) (hssl : o.ssl1 = true) :
    (writesTo .s1 (l.iteration o x).calls).IsChain Retries ↔
      (writesTo .s1 l.calls).IsChain Retries ∧ KeepsOffer1 o l x := by
  cases hserves : serves o l x with
  | false =>
    rw [(not_served hserves).2.2.2]
    exact (and_iff_left fun _ hs => absurd (hserves.symm.trans hs) (by simp)).symm
  | true =>
    obtain ⟨-, -, -, hw, -⟩ := served h.close hserves
    rw [hw]
    cases htries : triesWrite1 o l x with
    | false =>
      simp only [Bool.false_eq_true, if_false, List.append_nil]
      exact (and_iff_left fun _ _ ht => absurd (htries.symm.trans ht) (by simp)).symm
    | true =>
      rw [if_pos rfl, isChain_append_singleton]
      refine and_congr_right fun _ => ?_
      simp only [KeepsOffer1, hssl, hserves, htries, forall_const]
      refine forall₃_congr fun a ha hretry => ?_
      obtain ⟨hbegins, hlimit⟩ := h.held1 a ha hssl hretry
      exact take_eq_iff (hbegins.trans (List.prefix_append _ _)) hlimit

theorem isChain2_iteration (h : Holding o l) (hssl : o.ssl2 = true) :
    (writesTo .s2 (l.iteration o x).calls).IsChain Retries ↔
      (writesTo .s2 l.calls).IsChain Retries ∧ KeepsOffer2 o l x := by
  cases hserves : serves o l x with
  | false =>
    rw [(not_served hserves).2.2.2]
    exact (and_iff_left fun _ hs => absurd (hserves.symm.trans hs) (by simp)).symm
  | true =>
    obtain ⟨-, -, -, -, hw⟩ := served h.close hserves
    rw [hw]
    cases htries : triesWrite2 o l x with
    | false =>
      simp only [Bool.false_eq_true, if_false, List.append_nil]
      exact (and_iff_left fun _ _ ht => absurd (htries.symm.trans ht) (by simp)).symm
    | true =>
      rw [if_pos rfl, isChain_append_singleton]
      refine and_congr_right fun _ => ?_
      simp only [KeepsOffer2, hssl, hserves, htries, forall_const]
      refine forall₂_congr fun a ha => ?_
      obtain ⟨hheld, hwrite⟩ := h.held2 a ha hssl
      have hiff (hretry : wantsRetry a.2 = true) :
          (toWrite2 o l x).take l.writeChunkSize2 = a.1 ↔
            l.writeChunkSize2 ≤ a.1.length ∨ (toWrite2 o l x).length ≤ a.1.length :=
        take_eq_iff ((hheld hretry).1.trans (List.prefix_append _ _)) (hheld hretry).2
      constructor
      · intro hsame hread
        have hretry : wantsRetry a.2 = true := by rw [hread]; rfl
        exact (hiff hretry).mp (hsame hretry)
      · intro hkeeps hretry
        refine (hiff hretry).mpr ?_
        cases hresult : a.2 with
        | wrote n => simp [hresult, wantsRetry] at hretry
        | error e =>
          cases e with
          | wantRead => exact hkeeps hresult
          | wantWrite => exact .inl (hwrite hresult)
          | other => simp [hresult, wantsRetry] at hretry

theorem retriesExactly_iteration (h : Holding o l) :
    RetriesExactly o (l.iteration o x).calls ↔
      RetriesExactly o l.calls ∧ KeepsOffer1 o l x ∧ KeepsOffer2 o l x := by
  have h1 : (o.ssl1 = true → (writesTo .s1 (l.iteration o x).calls).IsChain Retries) ↔
      (o.ssl1 = true → (writesTo .s1 l.calls).IsChain Retries) ∧ KeepsOffer1 o l x := by
    constructor
    · exact fun hchain => ⟨fun hssl => ((isChain1_iteration h hssl).mp (hchain hssl)).1,
        fun hssl => ((isChain1_iteration h hssl).mp (hchain hssl)).2 hssl⟩
    · exact fun hboth hssl => (isChain1_iteration h hssl).mpr ⟨hboth.1 hssl, hboth.2⟩
  have h2 : (o.ssl2 = true → (writesTo .s2 (l.iteration o x).calls).IsChain Retries) ↔
      (o.ssl2 = true → (writesTo .s2 l.calls).IsChain Retries) ∧ KeepsOffer2 o l x := by
    constructor
    · exact fun hchain => ⟨fun hssl => ((isChain2_iteration h hssl).mp (hchain hssl)).1,
        fun hssl => ((isChain2_iteration h hssl).mp (hchain hssl)).2 hssl⟩
    · exact fun hboth hssl => (isChain2_iteration h hssl).mpr ⟨hboth.1 hssl, hboth.2⟩
  rw [RetriesExactly, h1, h2, and_and_and_comm]
  rfl

/-- From a loop that holds what is to be retried, by induction on the passes. -/
theorem retries_from (xs : List Outcome) (h : Holding o l) :
    RetriesExactly o (xs.foldl (Loop.step o) l).calls ↔
      RetriesExactly o l.calls ∧ KeepsOffers o l xs := by
  induction xs generalizing l with
  | nil => simp [KeepsOffers]
  | cons x xs ih =>
    rw [List.foldl_cons, KeepsOffers]
    cases hexited : l.exited with
    | true =>
      have hstep : l.step o x = l := if_pos hexited
      rw [hstep, ih h]
      simp
    | false =>
      have hstep : l.step o x = l.iteration o x := if_neg (by simp [hexited])
      rw [hstep, ih (holding_iteration h), retriesExactly_iteration h]
      simp only [forall_const, and_assoc]

/-- In a run of `forward_sockets` the writes to SSL sockets are retried with the same bytes
exactly if every retry keeps its offer. -/
theorem ssl_retries_iff (o : Options) (buffer1to2 buffer2to1 : List Byte) (xs : List Outcome) :
    RetriesExactly o (forwardSockets o buffer1to2 buffer2to1 xs).calls ↔
      KeepsOffers o (start o buffer1to2 buffer2to1) xs := by
  rw [forwardSockets, retries_from xs (holding_start o buffer1to2 buffer2to1)]
  refine and_iff_right ⟨fun _ => ?_, fun _ => ?_⟩ <;> exact .nil

/-- A write of the one byte for s1 that the SSL layer asks to be repeated. -/
def wantWritePass : Outcome where
  ready := { r1 := false, r2 := false, w1 := true, w2 := false }
  read1 := .eof
  read2 := .eof
  write1 := .error .wantWrite
  write2 := .wrote 0

/-- A second byte comes from s2 before s1 is written again. -/
def growPass : Outcome where
  ready := { r1 := false, r2 := true, w1 := true, w2 := false }
  read1 := .eof
  read2 := .data 2 []
  write1 := .wrote 2
  write2 := .wrote 0

/-- The retry offers the byte that came in between as well. -/
theorem retry_offers_more :
    ¬RetriesExactly (Options.ofArgs none none true false)
      (forwardSockets (Options.ofArgs none none true false) [] [1]
        [wantWritePass, growPass]).calls := by
  intro h
  have hchain := h.1 rfl
  revert hchain
  decide

end Runs

end Qvd.SslRetries
