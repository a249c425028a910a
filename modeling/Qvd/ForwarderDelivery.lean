import Qvd.PlainForwarder

/-!
Delivery of the bytes of two plain sockets by `forward_sockets`, under every
schedule in which reads and writes do not fail. An exact relay is kept from s2
to s1 by every pass, and from s1 to s2 by every pass but those that write to s2
after an earlier pass has met the end of s1.
-/
namespace Qvd.ForwarderDelivery

open SocketForwarder HalfRelay PlainForwarder

/-- The promise for one direction: bytes keep their order and none is lost or
doubled; the out side of `dst` closes only when `src` has ended and all its
bytes are written, and then it does close. -/
structure Delivers (src dst : Side) (preload buffer : List Byte) (outClosed : Bool)
    (calls : List Call) : Prop where
  in_order : preload ++ bytesRead src calls = bytesWritten dst calls ++ buffer
  closed_late : outClosed = true ∨ outShut dst calls = true →
    eofSeen src calls = true ∧ bytesWritten dst calls = preload ++ bytesRead src calls
  closed_promptly : eofSeen src calls = true → buffer = [] → outClosed = true

def Delivers1to2 (buffer1to2 : List Byte) (l : Loop) : Prop :=
  Delivers .s1 .s2 buffer1to2 l.b1to2 l.s2OutClosed l.calls

def Delivers2to1 (buffer2to1 : List Byte) (l : Loop) : Prop :=
  Delivers .s2 .s1 buffer2to1 l.b2to1 l.s1OutClosed l.calls

/-- The pass writes to s2 although s1 had ended before it. -/
def WritesAfterEof (l : Loop) (x : Outcome) : Prop :=
  l.exited = false ∧ l.s1InClosed = true ∧ l.wtw2 = true ∧ x.selected = true ∧ x.ready.w2 = true

instance (l : Loop) (x : Outcome) : Decidable (WritesAfterEof l x) := by
  unfold WritesAfterEof
  infer_instance

/-- No byte is lost, at any point of the schedule and in either direction. -/
def NoByteLost (o : Options) (buffer1to2 buffer2to1 : List Byte) (xs : List Outcome) : Prop :=
  ∀ ys, ys <+: xs →
    Delivers1to2 buffer1to2 (forwardSockets o buffer1to2 buffer2to1 ys) ∧
    Delivers2to1 buffer2to1 (forwardSockets o buffer1to2 buffer2to1 ys)

/-- From the loop `l` on, no pass writes to s2 after the end of s1. -/
def NeverWritesAfterEof (o : Options) : Loop → List Outcome → Prop
  | _, [] => True
  | l, x :: xs => ¬ WritesAfterEof l x ∧ NeverWritesAfterEof o (l.step o x) xs

instance decidableNeverWritesAfterEof (o : Options) :
    (l : Loop) → (xs : List Outcome) → Decidable (NeverWritesAfterEof o l xs)
  | _, [] => isTrue trivial
  | l, x :: xs =>
    have := decidableNeverWritesAfterEof o (l.step o x) xs
    inferInstanceAs (Decidable (¬ WritesAfterEof l x ∧ NeverWritesAfterEof o (l.step o x) xs))

/-! ### Invariants of a run -/

/-- The log agrees with the flags of the loop. -/
structure Tracked (l : Loop) : Prop where
  plain : Plain l
  eof1 : eofSeen .s1 l.calls = l.s1InClosed
  eof2 : eofSeen .s2 l.calls = l.s2InClosed
  shut1 : outShut .s1 l.calls = true → l.s1OutClosed = true ∨ l.exited = true
  shut2 : outShut .s2 l.calls = true → l.s2OutClosed = true ∨ l.exited = true

/-- The relay is exact and the loop is not left before the out side is closed. -/
structure Kept (r : Relay Byte) (exited : Bool) : Prop where
  exact : r.Exact
  closed : exited = true → r.outClosed = true

/-- The loop is left at the head of this pass. -/
def leaves (o : Options) (l : Loop) : Bool :=
  (l.s1OutClosed && l.s2OutClosed) || !(l.wtr1 o || l.wtr2 o || l.wtw1 || l.wtw2)

theorem tracked_start (o : Options) (buffer1to2 buffer2to1 : List Byte) :
    Tracked (start o buffer1to2 buffer2to1) where
  plain := ⟨rfl, rfl, rfl, rfl, rfl⟩
  eof1 := rfl
  eof2 := rfl
  shut1 h := by simp [start, outShut] at h
  shut2 h := by simp [start, outShut] at h

theorem kept1to2_start (o : Options) (buffer1to2 buffer2to1 : List Byte) :
    Kept (relay1to2 buffer1to2 (start o buffer1to2 buffer2to1))
      (start o buffer1to2 buffer2to1).exited where
  exact := ⟨by simp [relay1to2, start, bytesRead, bytesWritten], by simp [relay1to2, start]⟩
  closed h := by simp [start] at h

theorem kept2to1_start (o : Options) (buffer1to2 buffer2to1 : List Byte) :
    Kept (relay2to1 buffer2to1 (start o buffer1to2 buffer2to1))
      (start o buffer1to2 buffer2to1).exited where
  exact := ⟨by simp [relay2to1, start, bytesRead, bytesWritten], by simp [relay2to1, start]⟩
  closed h := by simp [start] at h

section Step

variable (o : Options) (l : Loop) (x : Outcome) (hssl1 : o.ssl1 = false) (hssl2 : o.ssl2 = false)

include hssl1 hssl2 in
/-- What one turn can do: nothing, leave the loop, or serve the sockets. -/
theorem step_cases :
    (l.step o x = l ∧ (l.exited = true ∨ x.selected = false)) ∨
    (l.step o x = l.finish ∧ l.exited = false ∧ leaves o l = true) ∨
    (l.step o x = l.serve o x (l.wtr1 o) (l.wtr2 o) l.wtw1 l.wtw2 ∧ l.exited = false ∧
      leaves o l = false ∧ x.selected = true) := by
  unfold Loop.step
  cases hexited : l.exited with
  | true => exact .inl ⟨rfl, .inl rfl⟩
  | false =>
    have h1 : l.readPending1 o x (l.wtr1 o) = (l, false) := by
      cases h : x.pending1 <;> simp [Loop.readPending1, h, hssl1]
    have h2 : l.readPending2 o x (l.wtr2 o) = (l, false) := by
      cases h : x.pending2 <;> simp [Loop.readPending2, h, hssl2]
    simp only [Loop.iteration, h1, h2, Bool.false_eq_true, if_false]
    cases hboth : l.s1OutClosed && l.s2OutClosed with
    | true => exact .inr (.inl ⟨by simp, trivial, by simp [leaves, hboth]⟩)
    | false =>
      cases hidle : !(l.wtr1 o || l.wtr2 o || l.wtw1 || l.wtw2) with
      | true => exact .inr (.inl ⟨by simp, trivial, by simp [leaves, hidle]⟩)
      | false =>
        cases hsel : x.selected with
        | true => exact .inr (.inr ⟨by simp, trivial, by simp [leaves, hboth, hidle], rfl⟩)
        | false => exact .inl ⟨by simp, .inr rfl⟩

/-- With nothing wanted, a direction whose relay is exact has closed. -/
theorem closed_of_idle (r : Relay Byte) (h : r.Exact) (size : ℕ) (hsize : 0 < size)
    (hin : (!r.inClosed && decide (r.pending.length < size)) = false)
    (hout : (!r.outClosed && !r.pending.isEmpty) = false) : r.outClosed = true := by
  by_contra hopen
  have hfalse : r.outClosed = false := Bool.eq_false_iff.mpr hopen
  have hempty : r.pending = [] := by simpa [hfalse] using hout
  have hclosed : r.inClosed = true := by simpa [hempty, hsize] using hin
  exact hopen (h.closed_iff.mpr ⟨hclosed, hempty⟩)

/-- When the loop is left, a direction whose relay is exact has closed. -/
theorem closed_of_leaves (hleaves : leaves o l = true) (buffer1to2 buffer2to1 : List Byte) :
    ((relay1to2 buffer1to2 l).Exact → l.s2OutClosed = true) ∧
    ((relay2to1 buffer2to1 l).Exact → l.s1OutClosed = true) := by
  rcases Bool.or_eq_true_iff.mp hleaves with hboth | hidle
  · obtain ⟨h1, h2⟩ := Bool.and_eq_true_iff.mp hboth
    exact ⟨fun _ => h2, fun _ => h1⟩
  · have hidle : ((l.wtr1 o = false ∧ l.wtr2 o = false) ∧ l.wtw1 = false) ∧ l.wtw2 = false := by
      simpa using hidle
    obtain ⟨⟨⟨hr1, hr2⟩, hw1⟩, hw2⟩ := hidle
    exact ⟨fun h => closed_of_idle _ h o.ioBufferSize o.ioBufferSize_pos hr1 hw2,
      fun h => closed_of_idle _ h o.ioBufferSize o.ioBufferSize_pos hr2 hw1⟩

theorem relay1to2_finish (buffer1to2 : List Byte) :
    relay1to2 buffer1to2 l.finish = relay1to2 buffer1to2 l := by
  simp [relay1to2, Loop.finish, Loop.log, bytesRead, bytesWritten,
    Call.readFrom, Call.writtenTo]

theorem relay2to1_finish (buffer2to1 : List Byte) :
    relay2to1 buffer2to1 l.finish = relay2to1 buffer2to1 l := by
  simp [relay2to1, Loop.finish, Loop.log, bytesRead, bytesWritten,
    Call.readFrom, Call.writtenTo]

theorem tracked_finish (h : Tracked l) : Tracked l.finish where
  plain := ⟨h.plain.wtr1, h.plain.wtw1, h.plain.wtr2, h.plain.wtw2, h.plain.close⟩
  eof1 := by simpa [Loop.finish, Loop.log, eofSeen, Call.isEof] using h.eof1
  eof2 := by simpa [Loop.finish, Loop.log, eofSeen, Call.isEof] using h.eof2
  shut1 _ := .inr rfl
  shut2 _ := .inr rfl

theorem tracked_afterClosing (h : Tracked l) (hexited : l.exited = false)
    (hclean : CleanPass o l x) : Tracked (afterClosing o l x) where
  plain := ⟨h.plain.wtr1, h.plain.wtw1, h.plain.wtr2, h.plain.wtw2, rfl⟩
  eof1 := by
    simp [afterClosing, afterWrites, afterReads, eofSeen_append, h.eof1,
      eofSeen_readCalls _ _ _ _ hclean.read1, eofSeen_readCalls _ _ _ _ hclean.read2]
  eof2 := by
    simp [afterClosing, afterWrites, afterReads, eofSeen_append, h.eof2,
      eofSeen_readCalls _ _ _ _ hclean.read1, eofSeen_readCalls _ _ _ _ hclean.read2]
  shut1 hshut := by
    have hold := h.shut1
    simp only [hexited, Bool.false_eq_true, or_false] at hold
    left
    simp [afterClosing, afterWrites, afterReads, outShut_append, drains1] at hshut ⊢
    tauto
  shut2 hshut := by
    have hold := h.shut2
    simp only [hexited, Bool.false_eq_true, or_false] at hold
    left
    simp [afterClosing, afterWrites, afterReads, outShut_append, drains2] at hshut ⊢
    tauto

end Step

section Turn

variable (o : Options) (l : Loop) (x : Outcome) (hssl1 : o.ssl1 = false) (hssl2 : o.ssl2 = false)
  (htracked : Tracked l) (hclean : ∀ c ∈ (l.step o x).calls, Call.Clean c)

include hssl1 hssl2 htracked hclean

/-- A turn over plain sockets that do not fail. -/
theorem turn_cases :
    (l.step o x = l ∧ (l.exited = true ∨ x.selected = false)) ∨
    (l.step o x = l.finish ∧ l.exited = false ∧ leaves o l = true) ∨
    (l.step o x = afterClosing o l x ∧ l.exited = false ∧ leaves o l = false ∧
      x.selected = true ∧ CleanPass o l x) := by
  rcases step_cases o l x hssl1 hssl2 with h | h | ⟨hserve, hexited, hleaves, hsel⟩
  · exact .inl h
  · exact .inr (.inl h)
  · rw [hserve] at hclean
    have hpass := cleanPass_of_calls o l x hssl1 hssl2 htracked.plain hclean
    refine .inr (.inr ⟨?_, hexited, hleaves, hsel, hpass⟩)
    rw [hserve, serve_plain o l x hssl1 hssl2 htracked.plain hpass]

theorem tracked_step : Tracked (l.step o x) := by
  rcases turn_cases o l x hssl1 hssl2 htracked hclean with
    ⟨h, _⟩ | ⟨h, _, _⟩ | ⟨h, hexited, _, _, hpass⟩
  · rw [h]
    exact htracked
  · rw [h]
    exact tracked_finish l htracked
  · rw [h]
    exact tracked_afterClosing o l x htracked hexited hpass

/-- From s2 to s1 every turn keeps the direction exact. -/
theorem kept2to1_step (buffer2to1 : List Byte) (hkept : Kept (relay2to1 buffer2to1 l) l.exited) :
    Kept (relay2to1 buffer2to1 (l.step o x)) (l.step o x).exited := by
  rcases turn_cases o l x hssl1 hssl2 htracked hclean with
    ⟨h, _⟩ | ⟨h, _, hleaves⟩ | ⟨h, hexited, _, _, hpass⟩
  · rw [h]
    exact hkept
  · rw [h]
    refine ⟨?_, fun _ => (closed_of_leaves o l hleaves [] buffer2to1).2 hkept.exact⟩
    rw [relay2to1_finish]
    exact hkept.exact
  · rw [h]
    refine ⟨?_, fun hout => ?_⟩
    · rw [relay2to1_afterClosing o l x hpass]
      exact Relay.round_exact _ _ hkept.exact (round2to1_legal o l x hpass buffer2to1)
    · have hout : l.exited = true := hout
      rw [hexited] at hout
      contradiction

/-- From s1 to s2 a turn keeps the direction exact unless it writes to s2
after the end of s1. -/
theorem kept1to2_step_iff (buffer1to2 : List Byte)
    (hkept : Kept (relay1to2 buffer1to2 l) l.exited) :
    Kept (relay1to2 buffer1to2 (l.step o x)) (l.step o x).exited ↔ ¬ WritesAfterEof l x := by
  rcases turn_cases o l x hssl1 hssl2 htracked hclean with
    ⟨h, hidle⟩ | ⟨h, _, hleaves⟩ | ⟨h, hexited, _, hsel, hpass⟩
  · rw [h]
    refine iff_of_true hkept fun ⟨hrun, _, _, hsel, _⟩ => ?_
    rcases hidle with hidle | hidle
    · simp [hrun] at hidle
    · simp [hsel] at hidle
  · rw [h]
    refine iff_of_true ⟨?_, fun _ => (closed_of_leaves o l hleaves buffer1to2 []).1 hkept.exact⟩
      fun ⟨_, _, hwtw, _, _⟩ => ?_
    · rw [relay1to2_finish]
      exact hkept.exact
    · have hopen : l.s2OutClosed = false := by
        simpa using (Bool.and_eq_true_iff.mp hwtw).1
      simp [leaves, hopen, hwtw] at hleaves
  · have hexact : Kept (relay1to2 buffer1to2 (l.step o x)) (l.step o x).exited ↔
        (relay1to2 buffer1to2 (l.step o x)).Exact := by
      have hrun : (l.step o x).exited = false := by
        rw [h]
        exact hexited
      exact ⟨fun k => k.exact, fun e => ⟨e, fun hout => by simp [hrun] at hout⟩⟩
    rw [hexact, h, relay1to2_afterClosing o l x hpass,
      Relay.round_inverted_exact_iff _ _ hkept.exact (round1to2_legal o l x hpass buffer1to2)]
    have htaken : (round1to2 o l x).taken = 0 ↔ writes2 l x = false := by
      have hpos := taken_pos (writes2 l x) x.write2
        fun hw => (hpass.write2 hw).imp fun _ hn => hn.1
      rw [← hpos]
      simp [round1to2]
    rw [htaken]
    simp [WritesAfterEof, relay1to2, writes2, hexited, hsel]

end Turn

/-- The promise of a direction is that its relay is exact, given the closed
end at the exit. -/
theorem delivers_of_kept (src dst : Side) (preload buffer : List Byte) (inClosed outClosed : Bool)
    (calls : List Call) (exited : Bool) (heof : eofSeen src calls = inClosed)
    (hshut : outShut dst calls = true → outClosed = true ∨ exited = true)
    (h : Kept ⟨buffer, inClosed, outClosed, preload ++ bytesRead src calls,
      bytesWritten dst calls⟩ exited) : Delivers src dst preload buffer outClosed calls where
  in_order := h.exact.conserved
  closed_late hclosed := by
    have hout : outClosed = true := by
      rcases hclosed with hout | hcall
      · exact hout
      · exact (hshut hcall).elim id h.closed
    exact ⟨heof.trans (h.exact.closed_iff.mp hout).1, h.exact.delivered_eq _ hout⟩
  closed_promptly hend hempty := h.exact.closed_iff.mpr ⟨heof ▸ hend, hempty⟩

theorem exact_of_delivers (src dst : Side) (preload buffer : List Byte) (inClosed outClosed : Bool)
    (calls : List Call) (heof : eofSeen src calls = inClosed)
    (h : Delivers src dst preload buffer outClosed calls) :
    (Relay.mk buffer inClosed outClosed (preload ++ bytesRead src calls)
      (bytesWritten dst calls)).Exact where
  conserved := h.in_order
  closed_iff := by
    constructor
    · intro hout
      obtain ⟨hend, hall⟩ := h.closed_late (.inl hout)
      have horder := h.in_order
      rw [← hall] at horder
      exact ⟨heof ▸ hend, List.self_eq_append_right.mp horder⟩
    · rintro ⟨hin, hempty⟩
      exact h.closed_promptly (heof.trans hin) hempty


/-! ### Whole runs -/

section Run

variable (o : Options) (hssl1 : o.ssl1 = false) (hssl2 : o.ssl2 = false)

include hssl1 hssl2

/-- From a loop in order, the promise from s1 to s2 holds all along exactly
when no pass writes to s2 after the end of s1; the promise from s2 to s1 holds
in any case. -/
theorem delivers_from (buffer1to2 buffer2to1 : List Byte) (xs : List Outcome) (l : Loop)
    (htracked : Tracked l) (h1to2 : Kept (relay1to2 buffer1to2 l) l.exited)
    (h2to1 : Kept (relay2to1 buffer2to1 l) l.exited)
    (hclean : ∀ c ∈ (xs.foldl (Loop.step o) l).calls, Call.Clean c) :
    (∀ ys, ys <+: xs → Delivers1to2 buffer1to2 (ys.foldl (Loop.step o) l) ∧
      Delivers2to1 buffer2to1 (ys.foldl (Loop.step o) l)) ↔ NeverWritesAfterEof o l xs := by
  have hhere : Delivers1to2 buffer1to2 l ∧ Delivers2to1 buffer2to1 l :=
    ⟨delivers_of_kept _ _ _ _ _ _ _ _ htracked.eof1 htracked.shut2 h1to2,
      delivers_of_kept _ _ _ _ _ _ _ _ htracked.eof2 htracked.shut1 h2to1⟩
  induction xs generalizing l with
  | nil =>
    refine iff_of_true (fun ys hys => ?_) trivial
    rw [List.prefix_nil.mp hys]
    exact hhere
  | cons x xs ih =>
    have hcleanStep : ∀ c ∈ (l.step o x).calls, Call.Clean c := fun c hc =>
      hclean c ((foldl_calls o xs (l.step o x)).subset hc)
    have htracked' := tracked_step o l x hssl1 hssl2 htracked hcleanStep
    have h2to1' := kept2to1_step o l x hssl1 hssl2 htracked hcleanStep buffer2to1 h2to1
    have hiff := kept1to2_step_iff o l x hssl1 hssl2 htracked hcleanStep buffer1to2 h1to2
    have hnext := fun h1to2' => ih (l.step o x) htracked' h1to2' h2to1' hclean
      ⟨delivers_of_kept _ _ _ _ _ _ _ _ htracked'.eof1 htracked'.shut2 h1to2',
        delivers_of_kept _ _ _ _ _ _ _ _ htracked'.eof2 htracked'.shut1 h2to1'⟩
    constructor
    · intro hall
      have hdelivers := (hall [x] (by simp)).1
      have hexact := exact_of_delivers _ _ _ _ _ _ _ htracked'.eof1 hdelivers
      have hwrites : ¬ WritesAfterEof l x := by
        intro hwrites
        -- a pass that serves the sockets does not leave the loop
        have hrun : (l.step o x).exited = false := by
          rcases turn_cases o l x hssl1 hssl2 htracked hcleanStep with
            ⟨h, _⟩ | ⟨h, _, hleaves⟩ | ⟨h, hexited, _, _, _⟩
          · rw [h]
            exact hwrites.1
          · have hopen : l.s2OutClosed = false := by
              simpa using (Bool.and_eq_true_iff.mp hwrites.2.2.1).1
            simp [leaves, hopen, hwrites.2.2.1] at hleaves
          · rw [h]
            exact hexited
        exact hiff.mp ⟨hexact, fun hout => by simp [hrun] at hout⟩ hwrites
      refine ⟨hwrites, (hnext (hiff.mpr hwrites)).mp fun ys hys => ?_⟩
      exact hall (x :: ys) (List.prefix_cons_iff.mpr (.inr ⟨ys, rfl, hys⟩))
    · rintro ⟨hwrites, hrest⟩ ys hys
      rcases List.prefix_cons_iff.mp hys with rfl | ⟨zs, rfl, hzs⟩
      · exact hhere
      · exact (hnext (hiff.mpr hwrites)).mpr hrest zs hzs

/-- Two plain sockets whose reads and writes do not fail lose no byte exactly
when no pass writes to s2 after an earlier pass has met the end of s1. -/
theorem no_byte_lost_iff (buffer1to2 buffer2to1 : List Byte) (xs : List Outcome)
    (hclean : ∀ c ∈ (forwardSockets o buffer1to2 buffer2to1 xs).calls, Call.Clean c) :
    NoByteLost o buffer1to2 buffer2to1 xs ↔
      NeverWritesAfterEof o (start o buffer1to2 buffer2to1) xs :=
  delivers_from o hssl1 hssl2 buffer1to2 buffer2to1 xs (start o buffer1to2 buffer2to1)
    (tracked_start o buffer1to2 buffer2to1) (kept1to2_start o buffer1to2 buffer2to1)
    (kept2to1_start o buffer1to2 buffer2to1) hclean

end Run

def defaultOptions : Options := Options.ofArgs none none false false

/-- s1 ends while s2 cannot take anything. -/
def eofPass : Outcome where
  ready := { r1 := true, r2 := false, w1 := false, w2 := false }
  read1 := .eof
  read2 := .eof
  write1 := .wrote 0
  write2 := .wrote 0

/-- s1 ends while s2 takes `n` bytes. -/
def eofAndWritePass (n : ℕ) : Outcome :=
  { eofPass with
    ready := { r1 := true, r2 := false, w1 := false, w2 := true }
    write2 := .wrote n }

/-- s2 takes `n` bytes. -/
def writePass (n : ℕ) : Outcome :=
  { eofPass with
    ready := { r1 := false, r2 := false, w1 := false, w2 := true }
    write2 := .wrote n }

theorem no_byte_lost_drained_at_eof :
    NoByteLost defaultOptions [1, 2] [] [eofAndWritePass 2, writePass 1] :=
  (no_byte_lost_iff defaultOptions rfl rfl [1, 2] [] _ (by decide)).mpr (by decide)

/-- s1 ends with two bytes waiting for s2; s2 then takes the first one, and its
out side is shut with the second one undelivered. -/
theorem byte_lost_after_eof :
    (defaultOptions.ssl1 = false ∧ defaultOptions.ssl2 = false) ∧
    (∀ c ∈ (forwardSockets defaultOptions [1, 2] [] [eofPass, writePass 1]).calls,
      Call.Clean c) ∧
    ¬ NoByteLost defaultOptions [1, 2] [] [eofPass, writePass 1] := by
  refine ⟨⟨rfl, rfl⟩, by decide, fun h => ?_⟩
  have hlate := (h _ List.prefix_rfl).1.closed_late (.inl (by decide))
  exact absurd hlate.2 (by decide)

end Qvd.ForwarderDelivery
