import Qvd.ForwarderPasses

/-!
Whether a pass of `forward_sockets` that was woken up gets anywhere. A pass serves a ready socket
for nothing when no operation is tried for it, when the SSL layer repeats a want that is recorded
already or asks for a write to be repeated, and when a read of an SSL socket fails for good: the
key set for s1 is one that nothing reads, and none is set for s2.
-/
namespace Qvd.ForwarderProgress

open Qvd.SocketForwarder Qvd.PlainForwarder Qvd.ForwarderDelivery Qvd.ForwarderPasses

/-! ### The property -/

def isSsl (o : Options) : Side → Bool
  | .s1 => o.ssl1
  | .s2 => o.ssl2

def inClosed (l : Loop) : Side → Bool
  | .s1 => l.s1InClosed
  | .s2 => l.s2InClosed

/-- The four closed flags. -/
def closedFlags (l : Loop) : Bool × Bool × Bool × Bool :=
  (l.s1InClosed, l.s2InClosed, l.s1OutClosed, l.s2OutClosed)

/-- The four want flags. -/
def wantFlags (l : Loop) : Bool × Bool × Bool × Bool :=
  (l.sslWtr1, l.sslWtw1, l.sslWtr2, l.sslWtw2)

/-- The call transfers a byte, or is a read that consumes input inside the SSL layer. -/
def transfers (o : Options) : Call → Bool
  | .sysread _ (.data _ _) => true
  | .sysread s (.error .wantRead) => isSsl o s
  | .syswrite _ _ (.wrote n) => 0 < n
  | _ => false

/-- The calls made between two states of the loop. -/
def newCalls (l l' : Loop) : List Call := l'.calls.drop l.calls.length

/-- Something has changed between two states of the loop. -/
def Progress (o : Options) (l l' : Loop) : Prop :=
  (∃ c ∈ newCalls l l', transfers o c = true) ∨ closedFlags l' ≠ closedFlags l ∨
    wantFlags l' ≠ wantFlags l

/-- A read of an SSL socket that failed for good has closed its in side, unless the loop is left
altogether. -/
def MarksFatal (o : Options) (l l' : Loop) : Prop :=
  ∀ s, isSsl o s = true → .sysread s (.error .other) ∈ newCalls l l' →
    inClosed l' s = true ∨ l'.exited = true

/-- A pass whose `select` reported some socket ready makes progress after it, and any pass marks
the fatal read errors it met. -/
def PassesWell (o : Options) (l : Loop) (x : Outcome) : Prop :=
  (serves o l x = true → anyReady o l x = true →
    Progress o (atSelect o l x) (l.iteration o x)) ∧
  MarksFatal o l (l.iteration o x)

/-! ### The condition -/

/-- The answer to a read of an SSL socket that changes nothing. -/
def futileRead (ssl wtw : Bool) (r : ReadResult) : Bool :=
  ssl && (r = .error .other || wtw && r = .error .wantWrite)

/-- The answer to a write to an SSL socket that changes nothing. -/
def futileWrite (ssl wtr : Bool) (r : WriteResult) : Bool :=
  ssl && (r = .error .wantWrite || wtr && r = .error .wantRead)

section Condition

variable (o : Options) (l : Loop) (x : Outcome)

/-- One of the operations is tried, and its answer is not futile. -/
def Useful : Prop :=
  (triesRead1 o l x = true ∧ futileRead o.ssl1 l.sslWtw1 x.read1 = false) ∨
  (triesRead2 o l x = true ∧ futileRead o.ssl2 l.sslWtw2 x.read2 = false) ∨
  (triesWrite1 o l x = true ∧ futileWrite o.ssl1 l.sslWtr1 x.write1 = false) ∨
  (triesWrite2 o l x = true ∧ futileWrite o.ssl2 l.sslWtr2 x.write2 = false)

/-- A read of s1 fails for good, before or after `select`. -/
def fatal1 : Bool :=
  o.ssl1 && !redoes1 o l x && (l.wtr1 o && x.pending1 = some (.error .other) ||
    serves o l x && triesRead1 o l x && x.read1 = .error .other)

def fatal2 : Bool :=
  o.ssl2 && !redoes1 o l x && (l.wtr2 o && x.pending2 = some (.error .other) ||
    serves o l x && triesRead2 o l x && x.read2 = .error .other)

/-- The pass leaves the loop. -/
def exits : Bool := !redoes1 o l x && !redoes2 o l x && leaves o l

/-- s1 is closed in the pass for another reason: a later read finds its end, a write to it fails,
or its buffer runs out while s2 ends or, being an SSL socket, fails to be written. -/
def closesBeside1 : Bool :=
  serves o l x && ((scheduled o l x).s1in || ((scheduled o l x).s1out ||
    (beforeClosing o l x).b2to1.isEmpty &&
      ((scheduled o l x).s2in || o.ssl2 && (scheduled o l x).s2out)))

def closesBeside2 : Bool :=
  serves o l x && ((scheduled o l x).s2in || ((scheduled o l x).s2out ||
    (beforeClosing o l x).b1to2.isEmpty &&
      ((scheduled o l x).s1in || o.ssl1 && (scheduled o l x).s1out)))

/-- The condition under which a pass does what it should. -/
def GoesWell : Prop :=
  (serves o l x = true → anyReady o l x = true → Useful o l x) ∧
  (fatal1 o l x = true → exits o l x = true ∨ closesBeside1 o l x = true) ∧
  (fatal2 o l x = true → exits o l x = true ∨ closesBeside2 o l x = true)

end Condition

/-! ### The closing block -/

section Closing

/-- `propagate` on the flags alone. -/
def propagateFlags (ssl1 ssl2 empty1 empty2 : Bool) (c : Close) : Close :=
  let c := if ssl1 && (c.s1in || c.s1out) then { c with s1in := true, s1out := true } else c
  let c := if ssl2 && (c.s2in || c.s2out) then { c with s2in := true, s2out := true } else c
  let c := if c.s1in && empty1 then { c with s2out := true } else c
  if c.s2in && empty2 then { c with s1out := true } else c

def propagateThrice (ssl1 ssl2 empty1 empty2 : Bool) (c : Close) : Close :=
  propagateFlags ssl1 ssl2 empty1 empty2 (propagateFlags ssl1 ssl2 empty1 empty2
    (propagateFlags ssl1 ssl2 empty1 empty2 c))

/-- Which in sides three turns close. -/
theorem propagateThrice_in : ∀ ssl1 ssl2 e1 e2 s1in slin s2in s1out s2out : Bool,
    let c : Close := ⟨s1in, slin, s2in, s1out, s2out⟩
    (c.any && (propagateThrice ssl1 ssl2 e1 e2 c).s1in) =
        (s1in || ssl1 && (s1out || e2 && (s2in || ssl2 && s2out))) ∧
      (c.any && (propagateThrice ssl1 ssl2 e1 e2 c).s2in) =
        (s2in || ssl2 && (s2out || e1 && (s1in || ssl1 && s1out))) := by
  decide

/-- Nothing is closed without a reason, and what is scheduled is closed. -/
theorem propagateThrice_out : ∀ ssl1 ssl2 e1 e2 s1in slin s2in s1out s2out : Bool,
    let c : Close := ⟨s1in, slin, s2in, s1out, s2out⟩
    (s1out = true → (c.any && (propagateThrice ssl1 ssl2 e1 e2 c).s1out) = true) ∧
      (s2out = true → (c.any && (propagateThrice ssl1 ssl2 e1 e2 c).s2out) = true) ∧
      (s1in = false → s2in = false → s1out = false → s2out = false →
        (c.any && (propagateThrice ssl1 ssl2 e1 e2 c).s1out) = false ∧
        (c.any && (propagateThrice ssl1 ssl2 e1 e2 c).s2out) = false) := by
  decide

variable (o : Options) (l : Loop)

/-- The flags that three turns of the propagation set, where the hash is not empty. -/
def closes : Close :=
  if l.close.any then propagateThrice o.ssl1 o.ssl2 l.b1to2.isEmpty l.b2to1.isEmpty l.close
  else {}

def closingCalls : List Call :=
  shutCalls .s1 .reading (closes o l).s1in ++ shutCalls .s2 .reading (closes o l).s2in ++
    shutCalls .s1 .writing (closes o l).s1out ++ shutCalls .s2 .writing (closes o l).s2out

/-- The closing block in terms of the flags. -/
theorem closing_eq : l.closing o =
    { l with
      s1InClosed := l.s1InClosed || (closes o l).s1in
      s2InClosed := l.s2InClosed || (closes o l).s2in
      s1OutClosed := l.s1OutClosed || (closes o l).s1out
      s2OutClosed := l.s2OutClosed || (closes o l).s2out
      close := {}
      calls := l.calls ++ closingCalls o l } := by
  have hthrice : propagateThrice o.ssl1 o.ssl2 l.b1to2.isEmpty l.b2to1.isEmpty l.close =
      Loop.propagate o l (Loop.propagate o l (Loop.propagate o l l.close)) := rfl
  unfold Loop.closing closingCalls closes
  rw [hthrice]
  generalize Loop.propagate o l (Loop.propagate o l (Loop.propagate o l l.close)) = c
  rcases c with ⟨c1in, _, c2in, c1out, c2out⟩
  cases l.close.any with
  | false => simp [shutCalls]
  | true =>
    cases c1in <;> cases c2in <;> cases c1out <;> cases c2out <;> simp [Loop.log, shutCalls]

theorem closes_in :
    (closes o l).s1in = (l.close.s1in || o.ssl1 && (l.close.s1out || l.b2to1.isEmpty &&
        (l.close.s2in || o.ssl2 && l.close.s2out))) ∧
      (closes o l).s2in = (l.close.s2in || o.ssl2 && (l.close.s2out || l.b1to2.isEmpty &&
        (l.close.s1in || o.ssl1 && l.close.s1out))) := by
  obtain ⟨h1, h2⟩ := propagateThrice_in o.ssl1 o.ssl2 l.b1to2.isEmpty l.b2to1.isEmpty
    l.close.s1in l.close.slin l.close.s2in l.close.s1out l.close.s2out
  rw [← h1, ← h2, closes]
  cases l.close.any <;> exact ⟨rfl, rfl⟩

theorem closes_out :
    (l.close.s1out = true → (closes o l).s1out = true) ∧
      (l.close.s2out = true → (closes o l).s2out = true) ∧
      (l.close.s1in = false → l.close.s2in = false → l.close.s1out = false →
        l.close.s2out = false → (closes o l).s1out = false ∧ (closes o l).s2out = false) := by
  obtain ⟨h1, h2, h3⟩ := propagateThrice_out o.ssl1 o.ssl2 l.b1to2.isEmpty l.b2to1.isEmpty
    l.close.s1in l.close.slin l.close.s2in l.close.s1out l.close.s2out
  have hif (b : Bool) (c : Close) : (if b then c else {}).s1out = (b && c.s1out) ∧
      (if b then c else {}).s2out = (b && c.s2out) := by
    cases b <;> exact ⟨rfl, rfl⟩
  rw [closes, (hif _ _).1, (hif _ _).2]
  exact ⟨h1, h2, h3⟩

end Closing

/-! ### Answers that change nothing -/

section Answers

variable {ssl wtw wtr : Bool}

theorem readEffect (r : ReadResult) :
    futileRead ssl wtw r = true →
      readWant ssl wtw r = wtw ∧ readEnds ssl wtw r = false ∧ ReadResult.bytes r = [] ∧
        ∃ e, r = .error e ∧ (ssl = true → e ≠ .wantRead) := by
  cases r with
  | data b bs => simp [futileRead]
  | eof => simp [futileRead]
  | error e => cases e <;> cases ssl <;> cases wtw <;> simp [futileRead, readWant, readEnds,
      ReadResult.bytes]

theorem readEffect_of_not (r : ReadResult) (h : futileRead ssl wtw r = false) :
    (∃ b bs, r = .data b bs) ∨ (ssl = true ∧ r = .error .wantRead) ∨
      readWant ssl wtw r ≠ wtw ∨ readEnds ssl wtw r = true := by
  cases r with
  | data b bs => simp
  | eof => cases wtw <;> simp [readWant, readEnds]
  | error e =>
    revert h
    cases e <;> cases ssl <;> cases wtw <;> simp [futileRead, readWant, readEnds]

theorem writeEffect (r : WriteResult) (h : futileWrite ssl wtr r = true) :
    writeWant ssl wtr r = wtr ∧ writeFails ssl r = false ∧ sent r = 0 ∧ ∃ e, r = .error e := by
  revert h
  cases r with
  | wrote n => simp [futileWrite]
  | error e =>
    cases e <;> cases ssl <;> cases wtr <;> simp [futileWrite, writeWant, writeFails, sent]

theorem writeEffect_of_not (r : WriteResult) (h : futileWrite ssl wtr r = false) :
    (∃ n, r = .wrote (n + 1)) ∨ writeWant ssl wtr r ≠ wtr ∨ writeFails ssl r = true := by
  revert h
  cases r with
  | wrote n => cases n <;> simp [writeFails]
  | error e => cases e <;> cases ssl <;> cases wtr <;> simp [futileWrite, writeWant, writeFails]

end Answers

/-! ### A served pass -/

section Served

variable {o : Options} {l : Loop} {x : Outcome}

/-- The calls of a pass are those of the operations it tries, and shutdowns. -/
theorem mem_passCalls {c : Call} (h : c ∈ passCalls o l x) :
    (triesRead1 o l x = true ∧ c = .sysread .s1 x.read1) ∨
    (triesRead2 o l x = true ∧ c = .sysread .s2 x.read2) ∨
    (triesWrite1 o l x = true ∧ ∃ offered, c = .syswrite .s1 offered x.write1) ∨
    (triesWrite2 o l x = true ∧ ∃ offered, c = .syswrite .s2 offered x.write2) ∨
    ∃ s how, c = .shutdown s how := by
  simp only [passCalls, readCalls, writeCalls, shutCalls, List.mem_append,
    List.mem_ite_nil_right, List.mem_cons, List.not_mem_nil, or_false] at h
  rcases h with ((⟨ht, rfl⟩ | ⟨ht, rfl⟩) | ⟨ht, rfl | ⟨-, rfl⟩⟩) | ⟨ht, rfl | ⟨-, rfl⟩⟩
  · exact .inl ⟨ht, rfl⟩
  · exact .inr (.inl ⟨ht, rfl⟩)
  · exact .inr (.inr (.inl ⟨ht, _, rfl⟩))
  · exact .inr (.inr (.inr (.inr ⟨_, _, rfl⟩)))
  · exact .inr (.inr (.inr (.inl ⟨ht, _, rfl⟩)))
  · exact .inr (.inr (.inr (.inr ⟨_, _, rfl⟩)))

theorem read1_mem_passCalls (h : triesRead1 o l x = true) :
    .sysread .s1 x.read1 ∈ passCalls o l x := by
  simp [passCalls, readCalls, h]

theorem read2_mem_passCalls (h : triesRead2 o l x = true) :
    .sysread .s2 x.read2 ∈ passCalls o l x := by
  simp [passCalls, readCalls, h]

theorem write1_mem_passCalls (h : triesWrite1 o l x = true) :
    .syswrite .s1 ((toWrite1 o l x).take o.ioChunkSize) x.write1 ∈ passCalls o l x := by
  simp [passCalls, writeCalls, h]

theorem write2_mem_passCalls (h : triesWrite2 o l x = true) :
    .syswrite .s2 ((toWrite2 o l x).take l.writeChunkSize2) x.write2 ∈ passCalls o l x := by
  simp [passCalls, writeCalls, h]

/-- The calls of a served pass. -/
theorem newCalls_served (c : Call) :
    c ∈ newCalls l ((beforeClosing o l x).closing o) ↔
      c ∈ passCalls o l x ∨ c ∈ closingCalls o (beforeClosing o l x) := by
  rw [newCalls, closing_eq]
  change c ∈ (l.calls ++ _ ++ _).drop _ ↔ _
  rw [List.append_assoc l.calls, List.drop_left, List.mem_append]

/-- The closing block only shuts sockets down. -/
theorem shutdown_of_mem_closingCalls {c : Call} (h : c ∈ closingCalls o l) :
    ∃ s how, c = .shutdown s how := by
  simp only [closingCalls, shutCalls, List.mem_append, List.mem_ite_nil_right,
    List.mem_singleton] at h
  rcases h with ((⟨-, rfl⟩ | ⟨-, rfl⟩) | ⟨-, rfl⟩) | ⟨-, rfl⟩ <;> exact ⟨_, _, rfl⟩

theorem sysread_not_mem_closingCalls {s : Side} {r : ReadResult} :
    .sysread s r ∉ closingCalls o l := by
  intro h
  obtain ⟨_, _, hc⟩ := shutdown_of_mem_closingCalls h
  cases hc

/-- An operation that is tried and not futile changes something. -/
theorem progress_of_useful (h : Useful o l x) :
    Progress o l ((beforeClosing o l x).closing o) := by
  obtain ⟨hin1, hin2⟩ := closes_in o (beforeClosing o l x)
  obtain ⟨hout1, hout2, -⟩ := closes_out o (beforeClosing o l x)
  rcases h with ⟨ht, heffect⟩ | ⟨ht, heffect⟩ | ⟨ht, heffect⟩ | ⟨ht, heffect⟩
  · have hmem := read1_mem_passCalls ht
    rcases readEffect_of_not x.read1 heffect with ⟨b, bs, hr⟩ | ⟨hssl, hr⟩ | hwant | hends
    · exact .inl ⟨_, (newCalls_served _).mpr (.inl hmem), by rw [hr]; rfl⟩
    · exact .inl ⟨_, (newCalls_served _).mpr (.inl hmem), by rw [hr]; exact hssl⟩
    · refine .inr (.inr fun hsame => hwant ?_)
      rw [closing_eq] at hsame
      simp only [wantFlags, beforeClosing, Prod.mk.injEq, ht, if_true] at hsame
      exact hsame.2.1
    · refine .inr (.inl fun hsame => ?_)
      rw [closing_eq] at hsame
      simp only [closedFlags, Prod.mk.injEq, hin1] at hsame
      have hopen : l.s1InClosed = false := by
        simp only [triesRead1, Loop.wtr1, Bool.and_eq_true, Bool.not_eq_true'] at ht
        exact ht.1.1
      simp [beforeClosing, scheduled, ht, hends, hopen] at hsame
  · have hmem := read2_mem_passCalls ht
    rcases readEffect_of_not x.read2 heffect with ⟨b, bs, hr⟩ | ⟨hssl, hr⟩ | hwant | hends
    · exact .inl ⟨_, (newCalls_served _).mpr (.inl hmem), by rw [hr]; rfl⟩
    · exact .inl ⟨_, (newCalls_served _).mpr (.inl hmem), by rw [hr]; exact hssl⟩
    · refine .inr (.inr fun hsame => hwant ?_)
      rw [closing_eq] at hsame
      simp only [wantFlags, beforeClosing, Prod.mk.injEq, ht, if_true] at hsame
      exact hsame.2.2.2
    · refine .inr (.inl fun hsame => ?_)
      rw [closing_eq] at hsame
      simp only [closedFlags, Prod.mk.injEq, hin2] at hsame
      have hopen : l.s2InClosed = false := by
        simp only [triesRead2, Loop.wtr2, Bool.and_eq_true, Bool.not_eq_true'] at ht
        exact ht.1.1
      simp [beforeClosing, scheduled, ht, hends, hopen] at hsame
  · have hmem := write1_mem_passCalls ht
    rcases writeEffect_of_not x.write1 heffect with ⟨n, hr⟩ | hwant | hfails
    · exact .inl ⟨_, (newCalls_served _).mpr (.inl hmem), by rw [hr]; simp [transfers]⟩
    · refine .inr (.inr fun hsame => hwant ?_)
      rw [closing_eq] at hsame
      simp only [wantFlags, beforeClosing, Prod.mk.injEq, ht, if_true] at hsame
      exact hsame.1
    · refine .inr (.inl fun hsame => ?_)
      have hclosed := hout1 (by simp [beforeClosing, scheduled, ht, hfails])
      rw [closing_eq] at hsame
      simp only [closedFlags, Prod.mk.injEq, hclosed, Bool.or_true] at hsame
      have hopen : l.s1OutClosed = false := by
        simp only [triesWrite1, Loop.wtw1, Bool.and_eq_true, Bool.not_eq_true'] at ht
        exact ht.1.1
      exact absurd (hsame.2.2.1.trans hopen) (by simp)
  · have hmem := write2_mem_passCalls ht
    rcases writeEffect_of_not x.write2 heffect with ⟨n, hr⟩ | hwant | hfails
    · exact .inl ⟨_, (newCalls_served _).mpr (.inl hmem), by rw [hr]; simp [transfers]⟩
    · refine .inr (.inr fun hsame => hwant ?_)
      rw [closing_eq] at hsame
      simp only [wantFlags, beforeClosing, Prod.mk.injEq, ht, if_true] at hsame
      exact hsame.2.2.1
    · refine .inr (.inl fun hsame => ?_)
      have hclosed := hout2 (by simp [beforeClosing, scheduled, ht, hfails])
      rw [closing_eq] at hsame
      simp only [closedFlags, Prod.mk.injEq, hclosed, Bool.or_true] at hsame
      have hopen : l.s2OutClosed = false := by
        simp only [triesWrite2, Loop.wtw2, Bool.and_eq_true, Bool.not_eq_true'] at ht
        exact ht.1.1
      exact absurd (hsame.2.2.2.trans hopen) (by simp)

theorem not_transfers_read {s : Side} {ssl : Bool} {r : ReadResult} (hssl : isSsl o s = ssl)
    (h : ∃ e, r = .error e ∧ (ssl = true → e ≠ .wantRead))
    (htransfers : transfers o (.sysread s r) = true) : False := by
  obtain ⟨e, rfl, he⟩ := h
  cases e with
  | wantRead => exact he (hssl.symm.trans htransfers) rfl
  | wantWrite => cases htransfers
  | other => cases htransfers

/-- Operations that are futile change nothing. -/
theorem useful_of_progress (h : Progress o l ((beforeClosing o l x).closing o)) :
    Useful o l x := by
  by_contra hnot
  simp only [Useful, not_or, not_and, Bool.not_eq_false] at hnot
  obtain ⟨h1, h2, h3, h4⟩ := hnot
  have hs1in : (beforeClosing o l x).close.s1in = false := by
    cases ht : triesRead1 o l x with
    | false => simp [beforeClosing, scheduled, ht]
    | true => simp [beforeClosing, scheduled, (readEffect _ (h1 ht)).2.1]
  have hs2in : (beforeClosing o l x).close.s2in = false := by
    cases ht : triesRead2 o l x with
    | false => simp [beforeClosing, scheduled, ht]
    | true => simp [beforeClosing, scheduled, (readEffect _ (h2 ht)).2.1]
  have hs1out : (beforeClosing o l x).close.s1out = false := by
    cases ht : triesWrite1 o l x with
    | false => simp [beforeClosing, scheduled, ht]
    | true => simp [beforeClosing, scheduled, (writeEffect _ (h3 ht)).2.1]
  have hs2out : (beforeClosing o l x).close.s2out = false := by
    cases ht : triesWrite2 o l x with
    | false => simp [beforeClosing, scheduled, ht]
    | true => simp [beforeClosing, scheduled, (writeEffect _ (h4 ht)).2.1]
  rcases h with ⟨c, hc, htransfers⟩ | hclosed | hwant
  · rcases (newCalls_served c).mp hc with hc | hc
    · rcases mem_passCalls hc with ⟨ht, rfl⟩ | ⟨ht, rfl⟩ | ⟨ht, offered, rfl⟩ |
        ⟨ht, offered, rfl⟩ | ⟨s, how, rfl⟩
      · exact not_transfers_read rfl (readEffect _ (h1 ht)).2.2.2 htransfers
      · exact not_transfers_read rfl (readEffect _ (h2 ht)).2.2.2 htransfers
      · obtain ⟨e, he⟩ := (writeEffect _ (h3 ht)).2.2.2
        rw [he] at htransfers
        cases htransfers
      · obtain ⟨e, he⟩ := (writeEffect _ (h4 ht)).2.2.2
        rw [he] at htransfers
        cases htransfers
      · cases htransfers
    · obtain ⟨s, how, rfl⟩ := shutdown_of_mem_closingCalls hc
      cases htransfers
  · refine hclosed ?_
    obtain ⟨hin1, hin2⟩ := closes_in o (beforeClosing o l x)
    obtain ⟨hout1, hout2⟩ := (closes_out o (beforeClosing o l x)).2.2 hs1in hs2in hs1out hs2out
    rw [closing_eq]
    have hexhausted1 : exhausted1 o l x = false := by
      cases ht : triesWrite1 o l x with
      | false => simp [exhausted1, ht]
      | true => simp [exhausted1, exhausts1, (writeEffect _ (h3 ht)).2.2.1]
    have hexhausted2 : exhausted2 o l x = false := by
      cases ht : triesWrite2 o l x with
      | false => simp [exhausted2, ht]
      | true => simp [exhausted2, exhausts2, (writeEffect _ (h4 ht)).2.2.1]
    simp only [closedFlags, hin1, hin2, hout1, hout2, hs1in, hs2in, hs1out, hs2out]
    simp [beforeClosing, hexhausted1, hexhausted2]
  · refine hwant ?_
    have hwant {t a b : Bool} (h : t = true → a = b) : (if t then a else b) = b := by
      cases t with
      | false => rfl
      | true => exact h rfl
    rw [closing_eq]
    simp only [wantFlags, beforeClosing, Prod.mk.injEq]
    exact ⟨hwant fun ht => (writeEffect _ (h3 ht)).1, hwant fun ht => (readEffect _ (h1 ht)).1,
      hwant fun ht => (writeEffect _ (h4 ht)).1, hwant fun ht => (readEffect _ (h2 ht)).1⟩

/-- The fatal read errors of the calls of a pass. -/
theorem fatal_mem_passCalls {s : Side} : .sysread s (.error .other) ∈ passCalls o l x ↔
    (s = .s1 ∧ triesRead1 o l x = true ∧ x.read1 = .error .other) ∨
      (s = .s2 ∧ triesRead2 o l x = true ∧ x.read2 = .error .other) := by
  constructor
  · intro h
    rcases mem_passCalls h with ⟨ht, hc⟩ | ⟨ht, hc⟩ | ⟨-, _, hc⟩ | ⟨-, _, hc⟩ | ⟨_, _, hc⟩
    · obtain ⟨rfl, hr⟩ := Call.sysread.inj hc
      exact .inl ⟨rfl, ht, hr.symm⟩
    · obtain ⟨rfl, hr⟩ := Call.sysread.inj hc
      exact .inr ⟨rfl, ht, hr.symm⟩
    · cases hc
    · cases hc
    · cases hc
  · rintro (⟨rfl, ht, hr⟩ | ⟨rfl, ht, hr⟩)
    · exact hr ▸ read1_mem_passCalls ht
    · exact hr ▸ read2_mem_passCalls ht

end Served

/-! ### Any pass -/

section Pass

variable {o : Options} {l : Loop} {x : Outcome}

/-- A fatal error among the reads before `select`. -/
theorem fatal_mem_pendingCalls1 {s : Side} : .sysread s (.error .other) ∈ pendingCalls1 o l x ↔
    s = .s1 ∧ (o.ssl1 && l.wtr1 o) = true ∧ x.pending1 = some (.error .other) := by
  unfold pendingCalls1
  cases x.pending1 with
  | none => simp
  | some r =>
    simp only [Option.toList_some, List.flatMap_cons, List.flatMap_nil, List.append_nil, readCalls,
      List.mem_ite_nil_right, List.mem_singleton, Call.sysread.injEq, Option.some.injEq]
    rw [and_left_comm, eq_comm (a := r)]

theorem fatal_mem_pendingCalls2 {s : Side} : .sysread s (.error .other) ∈ pendingCalls2 o l x ↔
    s = .s2 ∧ (o.ssl2 && l.wtr2 o) = true ∧ x.pending2 = some (.error .other) := by
  unfold pendingCalls2
  cases x.pending2 with
  | none => simp
  | some r =>
    simp only [Option.toList_some, List.flatMap_cons, List.flatMap_nil, List.append_nil, readCalls,
      List.mem_ite_nil_right, List.mem_singleton, Call.sysread.injEq, Option.some.injEq]
    rw [and_left_comm, eq_comm (a := r)]

/-- A state at the top of the loop. -/
structure AtTop (l : Loop) : Prop where
  running : l.exited = false
  close : l.close = {}

/-- Every state a run reaches is one, until the loop is left. -/
theorem atTop_forwardSockets (o : Options) (buffer1to2 buffer2to1 : List Byte)
    (xs : List Outcome) (h : (forwardSockets o buffer1to2 buffer2to1 xs).exited = false) :
    AtTop (forwardSockets o buffer1to2 buffer2to1 xs) := by
  have hclose : ∀ l : Loop, l.close = {} → (xs.foldl (Loop.step o) l).close = {} := by
    clear h
    induction xs with
    | nil => exact fun l hl => hl
    | cons x xs ih =>
      intro l hl
      refine ih _ ?_
      unfold Loop.step
      split
      · exact hl
      · exact close_iteration hl
  exact ⟨h, hclose _ rfl⟩

theorem newCalls_of_calls {l l' : Loop} {cs : List Call} (h : l'.calls = l.calls ++ cs) :
    newCalls l l' = cs := by
  rw [newCalls, h, List.drop_left]

/-- A read that brings bytes is no fatal error. -/
theorem not_fatal_of_bytes {r : ReadResult} (h : (!(ReadResult.bytes r).isEmpty) = true) :
    r ≠ .error .other := by
  rintro rfl
  simp [ReadResult.bytes] at h

theorem fatal_of_redoes1 (h : redoes1 o l x = true) :
    fatal1 o l x = false ∧ fatal2 o l x = false := by
  simp [fatal1, fatal2, h]

/-- Without bytes read before it, a fatal error is one before or one after `select`. -/
theorem fatal_iff (h : redoes1 o l x = false) :
    (fatal1 o l x = true ↔ o.ssl1 = true ∧
      ((o.ssl1 && l.wtr1 o) = true ∧ x.pending1 = some (.error .other) ∨
        serves o l x = true ∧ triesRead1 o l x = true ∧ x.read1 = .error .other)) ∧
    (fatal2 o l x = true ↔ o.ssl2 = true ∧
      ((o.ssl2 && l.wtr2 o) = true ∧ x.pending2 = some (.error .other) ∨
        serves o l x = true ∧ triesRead2 o l x = true ∧ x.read2 = .error .other)) := by
  constructor
  · cases hssl : o.ssl1 <;> simp [fatal1, h, hssl, and_assoc]
  · cases hssl : o.ssl2 <;> simp [fatal2, h, hssl, and_assoc]

/-- The fatal read errors that a pass meets. -/
theorem fatal_mem_newCalls (htop : AtTop l) {s : Side} :
    .sysread s (.error .other) ∈ newCalls l (l.iteration o x) ∧ isSsl o s = true ↔
      (s = .s1 ∧ fatal1 o l x = true) ∨ (s = .s2 ∧ fatal2 o l x = true) := by
  have hsides (p q : Prop) : ((s = .s1 ∧ p ∨ s = .s2 ∧ q) ∧ isSsl o s = true) ↔
      s = .s1 ∧ o.ssl1 = true ∧ p ∨ s = .s2 ∧ o.ssl2 = true ∧ q := by
    cases s <;> simp [isSsl, and_comm]
  have hmem (h1 : redoes1 o l x = false) (cs : List Call)
      (hcalls : (l.iteration o x).calls = l.calls ++ (pendingCalls1 o l x ++ cs))
      (hcs : .sysread s (.error .other) ∈ cs ↔
        s = .s1 ∧ serves o l x = true ∧ triesRead1 o l x = true ∧ x.read1 = .error .other ∨
        s = .s2 ∧ ((o.ssl2 && l.wtr2 o) = true ∧ x.pending2 = some (.error .other) ∨
          serves o l x = true ∧ triesRead2 o l x = true ∧ x.read2 = .error .other)) :
      .sysread s (.error .other) ∈ newCalls l (l.iteration o x) ∧ isSsl o s = true ↔
        (s = .s1 ∧ fatal1 o l x = true) ∨ (s = .s2 ∧ fatal2 o l x = true) := by
    rw [newCalls_of_calls hcalls, List.mem_append, fatal_mem_pendingCalls1, hcs, ← or_assoc,
      ← and_or_left, hsides, (fatal_iff h1).1, (fatal_iff h1).2]
  rcases iteration_cases o l x with ⟨-, h1, r, hr, h⟩ | ⟨hs, h1, h2, r, hr, h⟩ |
    ⟨hs, h1, h2, -, h⟩ | ⟨hs, h1, h2, -, h⟩ | ⟨hs, h1, h2, -, -⟩
  · have hcalls : (l.iteration o x).calls = l.calls ++ [.sysread .s1 r] := by
      rw [h]
      rfl
    rw [newCalls_of_calls hcalls, (fatal_of_redoes1 h1).1, (fatal_of_redoes1 h1).2]
    simp only [redoes1, hr, Option.any_some, Bool.and_eq_true] at h1
    have hne := not_fatal_of_bytes h1.2
    simp [Ne.symm hne]
  · refine hmem h1 [.sysread .s2 r] (by rw [h, List.append_assoc]) ?_
    simp only [redoes2, hr, Option.any_some, Bool.and_eq_true] at h2
    have hne := not_fatal_of_bytes h2.2.2
    simp [hs, hr, hne, Ne.symm hne]
  · refine hmem h1 (pendingCalls2 o l x ++ [.shutdown .s1 .both, .shutdown .s2 .both])
      (by rw [h]; simp [Loop.finish, Loop.log, atSelect]) ?_
    simp [hs, fatal_mem_pendingCalls2]
  · refine hmem h1 (pendingCalls2 o l x) (by rw [h, atSelect, List.append_assoc]) ?_
    simp [hs, fatal_mem_pendingCalls2]
  · have hcalls := congrArg Loop.calls (iteration_of_serves htop.close hs)
    rw [closing_eq] at hcalls
    refine hmem h1 (pendingCalls2 o l x ++ (passCalls o l x ++
      closingCalls o (beforeClosing o (atSelect o l x) x))) (hcalls.trans ?_) ?_
    · change l.calls ++ _ ++ _ ++ passCalls o l x ++ _ = _
      simp only [List.append_assoc]
    · simp only [List.mem_append, fatal_mem_pendingCalls2, fatal_mem_passCalls,
        sysread_not_mem_closingCalls, or_false, hs, true_and]
      rw [or_left_comm, ← and_or_left]

/-- What a pass leaves of the in sides, and whether it leaves the loop. -/
theorem iteration_of_not_serves (hs : serves o l x = false) (hexited : l.exited = false) :
    (l.iteration o x).s1InClosed = l.s1InClosed ∧ (l.iteration o x).s2InClosed = l.s2InClosed ∧
      (l.iteration o x).exited = exits o l x := by
  rcases iteration_cases o l x with ⟨-, h1, r, -, h⟩ | ⟨-, h1, h2, r, -, h⟩ | ⟨-, h1, h2, h3, h⟩ |
    ⟨-, h1, h2, h3, h⟩ | ⟨hs', -⟩
  · rw [h]
    exact ⟨rfl, rfl, by simp [exits, h1, Loop.log, hexited]⟩
  · rw [h]
    exact ⟨rfl, rfl, by simp [exits, h1, h2, hexited]⟩
  · rw [h]
    exact ⟨rfl, rfl, by simp [exits, h1, h2, h3, Loop.finish]⟩
  · rw [h]
    exact ⟨rfl, rfl, by simp [exits, h3, atSelect, hexited]⟩
  · simp [hs] at hs'

theorem not_exits_of_serves (h : serves o l x = true) : exits o l x = false := by
  simp only [serves, Bool.and_eq_true, Bool.not_eq_true'] at h
  simp [exits, h.1.2]

/-- An SSL socket whose in side was open is marked exactly if the loop is left or another reason
closes it. -/
theorem marked1_iff (htop : AtTop l) (hssl : o.ssl1 = true) (hopen : l.s1InClosed = false) :
    inClosed (l.iteration o x) .s1 = true ∨ (l.iteration o x).exited = true ↔
      exits o l x = true ∨ closesBeside1 o l x = true := by
  cases hs : serves o l x with
  | false =>
    obtain ⟨hin, -, hexits⟩ := iteration_of_not_serves hs htop.running
    rw [inClosed, hin, hexits, hopen]
    simp [closesBeside1, hs]
  | true =>
    have hin : (closes o (beforeClosing o (atSelect o l x) x)).s1in = closesBeside1 o l x := by
      rw [(closes_in o _).1, closesBeside1, hs, hssl, Bool.true_and, Bool.true_and]
      rfl
    rw [iteration_of_serves htop.close hs, closing_eq, not_exits_of_serves hs]
    change (l.s1InClosed || _) = true ∨ l.exited = true ↔ _
    rw [hopen, hin, htop.running]
    simp

theorem marked2_iff (htop : AtTop l) (hssl : o.ssl2 = true) (hopen : l.s2InClosed = false) :
    inClosed (l.iteration o x) .s2 = true ∨ (l.iteration o x).exited = true ↔
      exits o l x = true ∨ closesBeside2 o l x = true := by
  cases hs : serves o l x with
  | false =>
    obtain ⟨-, hin, hexits⟩ := iteration_of_not_serves hs htop.running
    rw [inClosed, hin, hexits, hopen]
    simp [closesBeside2, hs]
  | true =>
    have hin : (closes o (beforeClosing o (atSelect o l x) x)).s2in = closesBeside2 o l x := by
      rw [(closes_in o _).2, closesBeside2, hs, hssl, Bool.true_and, Bool.true_and]
      rfl
    rw [iteration_of_serves htop.close hs, closing_eq, not_exits_of_serves hs]
    change (l.s2InClosed || _) = true ∨ l.exited = true ↔ _
    rw [hopen, hin, htop.running]
    simp

/-- A read that fails for good is tried on an SSL socket whose in side is open. -/
theorem open_of_fatal1 (h : fatal1 o l x = true) : o.ssl1 = true ∧ l.s1InClosed = false := by
  simp only [fatal1, Bool.and_eq_true, Bool.or_eq_true, triesRead1, Loop.wtr1,
    Bool.not_eq_true'] at h
  obtain ⟨⟨hssl, -⟩, ⟨⟨hopen, -⟩, -⟩ | ⟨⟨-, ⟨hopen, -⟩, -⟩, -⟩⟩ := h
  · exact ⟨hssl, hopen⟩
  · exact ⟨hssl, hopen⟩

theorem open_of_fatal2 (h : fatal2 o l x = true) : o.ssl2 = true ∧ l.s2InClosed = false := by
  simp only [fatal2, Bool.and_eq_true, Bool.or_eq_true, triesRead2, Loop.wtr2,
    Bool.not_eq_true'] at h
  obtain ⟨⟨hssl, -⟩, ⟨⟨hopen, -⟩, -⟩ | ⟨⟨-, ⟨hopen, -⟩, -⟩, -⟩⟩ := h
  · exact ⟨hssl, hopen⟩
  · exact ⟨hssl, hopen⟩

theorem marksFatal_iff (htop : AtTop l) : MarksFatal o l (l.iteration o x) ↔
    (fatal1 o l x = true → exits o l x = true ∨ closesBeside1 o l x = true) ∧
      (fatal2 o l x = true → exits o l x = true ∨ closesBeside2 o l x = true) := by
  constructor
  · intro h
    constructor
    · intro hfatal
      obtain ⟨hssl, hopen⟩ := open_of_fatal1 hfatal
      have hmem := ((fatal_mem_newCalls htop).mpr (.inl ⟨rfl, hfatal⟩)).1
      exact (marked1_iff htop hssl hopen).mp (h .s1 hssl hmem)
    · intro hfatal
      obtain ⟨hssl, hopen⟩ := open_of_fatal2 hfatal
      have hmem := ((fatal_mem_newCalls htop).mpr (.inr ⟨rfl, hfatal⟩)).1
      exact (marked2_iff htop hssl hopen).mp (h .s2 hssl hmem)
  · rintro ⟨h1, h2⟩ s hssl hmem
    rcases (fatal_mem_newCalls htop).mp ⟨hmem, hssl⟩ with ⟨rfl, hfatal⟩ | ⟨rfl, hfatal⟩
    · exact (marked1_iff htop hssl (open_of_fatal1 hfatal).2).mpr (h1 hfatal)
    · exact (marked2_iff htop hssl (open_of_fatal2 hfatal).2).mpr (h2 hfatal)

/-- A pass makes progress on what is ready and marks fatal read errors exactly if it goes well. -/
theorem passes_well_iff (htop : AtTop l) : PassesWell o l x ↔ GoesWell o l x := by
  refine and_congr (forall₂_congr fun hs _ => ?_) (marksFatal_iff htop)
  rw [iteration_of_serves htop.close hs]
  exact ⟨useful_of_progress (l := atSelect o l x), progress_of_useful (l := atSelect o l x)⟩

/-- A byte that arrives for s1 at the start. -/
def bytePass : Outcome where
  ready := { r1 := true, r2 := false, w1 := false, w2 := false }
  read1 := .data 1 []
  read2 := .eof
  write1 := .wrote 0
  write2 := .wrote 0

theorem passes_well_iff_byte :
    PassesWell (Options.ofArgs none none false false)
      (start (Options.ofArgs none none false false) [] []) bytePass := by
  refine (passes_well_iff ⟨rfl, rfl⟩).mpr ⟨fun _ _ => .inl ⟨by decide, by decide⟩, ?_, ?_⟩
  · exact fun h => absurd h (by decide)
  · exact fun h => absurd h (by decide)

/-- A read of an SSL s2 that fails for good. -/
def fatalPass : Outcome where
  ready := { r1 := false, r2 := true, w1 := false, w2 := false }
  read1 := .eof
  read2 := .error .other
  write1 := .wrote 0
  write2 := .wrote 0

/-- At the start of the loop nothing comes of it, and s2 stays open. -/
theorem fatal_read_spins :
    ¬PassesWell (Options.ofArgs none none false true)
      (start (Options.ofArgs none none false true) [] []) fatalPass := by
  intro h
  have hmarked := h.2 .s2 rfl (by decide)
  revert hmarked
  decide

end Pass

end Qvd.ForwarderProgress
