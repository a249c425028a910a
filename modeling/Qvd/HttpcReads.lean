import Mathlib.Data.List.TakeDrop
import Mathlib.Tactic.Common

/-!
`_sysread` of the HTTP client: it reads from a non-blocking socket until its buffer holds as many
bytes as are asked for. A turn of its loop is a read and, if the read brought nothing, a wait for
the socket. The result of the last wait is kept from turn to turn, and for a plain socket a read
that brings nothing after a wait that found the socket ready is taken for the end of the stream.
-/
namespace Qvd.HttpcReads

abbrev Byte := UInt8

/-- What a read meets: some bytes have arrived, none has yet, the SSL layer has to write first,
or the connection has failed. Once the stream is used up, bytes that arrive are its end. -/
inductive Arrival where
  | bytes (more : Nat)
  | wouldBlock
  | wantWrite
  | failed
  deriving DecidableEq

/-- What `select` answers: the count of ready sockets is 1, 0 or, with `EINTR`, -1. -/
inductive Selected where
  | ready | timeout | interrupted
  deriving DecidableEq

/-- The bit vector that is filled in the call of `select`. -/
inductive Direction where
  | reading | writing
  deriving DecidableEq

/-- The world during one turn of the loop. -/
structure Turn where
  arrival : Arrival
  selected : Selected
  deriving DecidableEq

/-- The messages `_sysread` dies with. -/
inductive Death where
  | closedUnexpectedly | timedOut | sslError
  deriving DecidableEq

/-- The client: its buffer, the rest of the stream its peer sends, `$n`, whether `$!` is `EINTR`,
and the calls of `select` so far. -/
structure Client where
  bin : List Byte
  stream : List Byte
  n : Int := 0
  eintr : Bool := false
  waits : List Direction := []
  deriving DecidableEq

/-! ### The loop -/

section Loop

variable (ssl : Bool) (length : Nat)

/-- `$n > 0 or $! == Errno::EINTR or die`, after the call of `select`. -/
def select (c : Client) (selected : Selected) (d : Direction) : Except Death Client :=
  let c := { c with waits := c.waits ++ [d] }
  match selected with
  | .ready => .ok { c with n := 1 }
  | .timeout => if c.eintr then .ok { c with n := 0 } else .error .timedOut
  | .interrupted => .ok { c with n := -1, eintr := true }

/-- `$n > 0 and die`, or a wait for reading. -/
def retry (c : Client) (selected : Selected) : Except Death Client :=
  if 0 < c.n then .error .closedUnexpectedly else select c selected .reading

/-- One turn, in which at least one byte is missing. A read without a result sets `$!`. -/
def turn (c : Client) (t : Turn) : Except Death Client :=
  match t.arrival with
  | .bytes more =>
    if c.stream = [] then retry c t.selected
    else
      let count := min (more + 1) (length - c.bin.length)
      .ok { c with bin := c.bin ++ c.stream.take count, stream := c.stream.drop count }
  | .wouldBlock =>
    let c := { c with eintr := false }
    if ssl then select c t.selected .reading else retry c t.selected
  | .wantWrite =>
    let c := { c with eintr := false }
    if ssl then select c t.selected .writing else retry c t.selected
  | .failed =>
    let c := { c with eintr := false }
    if ssl then .error .sslError else retry c t.selected

/-- How a call stands after the turns it was given. -/
inductive Outcome where
  | returned (c : Client)
  | died (d : Death) (t : Turn) (c : Client)
  | waiting (c : Client)

def readLoop : Client → List Turn → Outcome
  | c, [] => if length ≤ c.bin.length then .returned c else .waiting c
  | c, t :: ts =>
    if length ≤ c.bin.length then .returned c
    else match turn ssl length c t with
      | .ok c => readLoop c ts
      | .error d => .died d t c

/-- `_sysread`. -/
def sysread (bin stream : List Byte) (eintr : Bool) (ts : List Turn) : Outcome :=
  readLoop ssl length { bin := bin, stream := stream, eintr := eintr } ts

end Loop

/-! ### The property -/

/-- The buffer has been filled with the next bytes of the stream. -/
def InOrder (bin stream : List Byte) (c : Client) : Prop :=
  bin <+: c.bin ∧ c.bin ++ c.stream = bin ++ stream

/-- The bytes that the turns bring, if nobody limits them. -/
def offered : List Turn → Nat
  | [] => 0
  | t :: ts => (match t.arrival with | .bytes more => more + 1 | _ => 0) + offered ts

/-- The turn in which a call died shows why: the stream is at its end, the connection has failed,
or nothing came within the timeout. -/
def Justified (d : Death) (t : Turn) (c : Client) : Prop :=
  match d with
  | .closedUnexpectedly => t.arrival = .failed ∨ ∃ more, t.arrival = .bytes more ∧ c.stream = []
  | .timedOut => t.selected = .timeout
  | .sslError => t.arrival = .failed

/-- A call returns with enough bytes, dies with a reason, or has taken all that came. -/
def Correct (length : Nat) (bin stream : List Byte) (ts : List Turn) : Outcome → Prop
  | .returned c => length ≤ c.bin.length ∧ InOrder bin stream c
  | .died d t c => c.bin.length < length ∧ InOrder bin stream c ∧ Justified d t c
  | .waiting c => c.bin.length < length ∧ InOrder bin stream c ∧
      c.bin = bin ++ stream.take (offered ts)

/-! ### The condition -/

/-- A plain socket has nothing to read in a turn although the last wait found it ready. -/
def Stale (ssl : Bool) (c : Client) (t : Turn) : Prop :=
  ssl = false ∧ 0 < c.n ∧ (t.arrival = .wouldBlock ∨ t.arrival = .wantWrite)

/-- No turn of the call is stale. -/
def NeverStale (ssl : Bool) (length : Nat) : Client → List Turn → Prop
  | _, [] => True
  | c, t :: ts => c.bin.length < length →
    ¬Stale ssl c t ∧ ∀ c', turn ssl length c t = .ok c' → NeverStale ssl length c' ts

/-! ### One turn -/

section Turns

variable {ssl : Bool} {length : Nat} {c c' : Client} {t : Turn} {d : Death}

/-- `select` leaves the bytes alone, and the call dies in it only on a timeout. -/
theorem select_ok {selected : Selected} {dir : Direction} (h : select c selected dir = .ok c') :
    c'.bin = c.bin ∧ c'.stream = c.stream := by
  unfold select at h
  cases selected with
  | ready =>
    cases h
    exact ⟨rfl, rfl⟩
  | interrupted =>
    cases h
    exact ⟨rfl, rfl⟩
  | timeout =>
    dsimp only at h
    split at h
    · cases h
      exact ⟨rfl, rfl⟩
    · cases h

theorem select_error {selected : Selected} {dir : Direction}
    (h : select c selected dir = .error d) : d = .timedOut ∧ selected = .timeout := by
  unfold select at h
  cases selected with
  | ready => cases h
  | interrupted => cases h
  | timeout =>
    dsimp only at h
    split at h
    · cases h
    · cases h
      exact ⟨rfl, rfl⟩

theorem retry_ok {selected : Selected} (h : retry c selected = .ok c') :
    c'.bin = c.bin ∧ c'.stream = c.stream := by
  unfold retry at h
  split at h
  · cases h
  · exact select_ok h

theorem retry_error {selected : Selected} (h : retry c selected = .error d) :
    (d = .closedUnexpectedly ∧ 0 < c.n) ∨ (d = .timedOut ∧ selected = .timeout) := by
  unfold retry at h
  split at h
  · next hn =>
    cases h
    exact .inl ⟨rfl, hn⟩
  · exact .inr (select_error h)

/-- The bytes a turn takes from the stream. -/
def taken (length : Nat) (c : Client) (t : Turn) : Nat :=
  match t.arrival with
  | .bytes more => min (more + 1) (length - c.bin.length)
  | _ => 0

/-- What a turn leaves: the bytes it has taken are at the end of the buffer. -/
theorem turn_ok (h : turn ssl length c t = .ok c') :
    c'.bin = c.bin ++ c.stream.take (taken length c t) ∧
      c'.stream = c.stream.drop (taken length c t) := by
  unfold turn at h
  cases harrival : t.arrival with
  | bytes more =>
    simp only [harrival] at h
    split at h
    · next hstream =>
      obtain ⟨hbin, hrest⟩ := retry_ok h
      simp [hbin, hrest, hstream]
    · cases h
      simp [taken, harrival]
  | wouldBlock =>
    simp only [harrival] at h
    split at h
    · simpa [taken, harrival] using select_ok h
    · simpa [taken, harrival] using retry_ok h
  | wantWrite =>
    simp only [harrival] at h
    split at h
    · simpa [taken, harrival] using select_ok h
    · simpa [taken, harrival] using retry_ok h
  | failed =>
    simp only [harrival] at h
    split at h
    · cases h
    · simpa [taken, harrival] using retry_ok h

/-- A turn in which the call dies shows a reason, or it is stale. -/
theorem turn_error (h : turn ssl length c t = .error d) :
    Justified d t c ∨ (d = .closedUnexpectedly ∧ Stale ssl c t) := by
  unfold turn at h
  cases harrival : t.arrival with
  | bytes more =>
    simp only [harrival] at h
    split at h
    · next hstream =>
      rcases retry_error h with ⟨rfl, -⟩ | ⟨rfl, hsel⟩
      · exact .inl (.inr ⟨more, harrival, hstream⟩)
      · exact .inl hsel
    · cases h
  | wouldBlock =>
    simp only [harrival] at h
    split at h
    · obtain ⟨rfl, hsel⟩ := select_error h
      exact .inl hsel
    · next hssl =>
      rcases retry_error h with ⟨rfl, hn⟩ | ⟨rfl, hsel⟩
      · exact .inr ⟨rfl, by simpa using hssl, hn, .inl harrival⟩
      · exact .inl hsel
  | wantWrite =>
    simp only [harrival] at h
    split at h
    · obtain ⟨rfl, hsel⟩ := select_error h
      exact .inl hsel
    · next hssl =>
      rcases retry_error h with ⟨rfl, hn⟩ | ⟨rfl, hsel⟩
      · exact .inr ⟨rfl, by simpa using hssl, hn, .inr harrival⟩
      · exact .inl hsel
  | failed =>
    simp only [harrival] at h
    split at h
    · cases h
      exact .inl harrival
    · rcases retry_error h with ⟨rfl, -⟩ | ⟨rfl, hsel⟩
      · exact .inl (.inl harrival)
      · exact .inl hsel

/-- In a stale turn the call dies. -/
theorem turn_of_stale (h : Stale ssl c t) :
    turn ssl length c t = .error .closedUnexpectedly := by
  obtain ⟨hssl, hn, harrival⟩ := h
  rcases harrival with harrival | harrival
  · simp [turn, harrival, hssl, retry, hn]
  · simp [turn, harrival, hssl, retry, hn]

/-- Nothing justifies dying in a stale turn. -/
theorem not_justified_of_stale (h : Stale ssl c t) : ¬Justified .closedUnexpectedly t c := by
  obtain ⟨-, -, harrival⟩ := h
  rcases harrival with harrival | harrival
  · simp [Justified, harrival]
  · simp [Justified, harrival]

end Turns

/-! ### Whole calls -/

section Calls

variable {ssl : Bool} {length : Nat} {c c' : Client} {t : Turn} {ts : List Turn}

theorem InOrder.trans {bin stream : List Byte} (h : InOrder bin stream c)
    (h' : InOrder c.bin c.stream c') : InOrder bin stream c' :=
  ⟨h.1.trans h'.1, h'.2.trans h.2⟩

theorem inOrder_turn (h : turn ssl length c t = .ok c') : InOrder c.bin c.stream c' := by
  obtain ⟨hbin, hstream⟩ := turn_ok h
  rw [InOrder, hbin, hstream]
  exact ⟨List.prefix_append _ _, by rw [List.append_assoc, List.take_append_drop]⟩

/-- While bytes are missing after it, a turn has taken all that it was offered. -/
theorem bin_turn (h : turn ssl length c t = .ok c') (hmissing : c'.bin.length < length) (m : Nat) :
    c'.bin ++ c'.stream.take m = c.bin ++ c.stream.take (offered [t] + m) := by
  obtain ⟨hbin, hstream⟩ := turn_ok h
  have htaken : taken length c t = offered [t] ∨
      c.stream.length ≤ taken length c t ∧ c.stream.length ≤ offered [t] := by
    rw [hbin, List.length_append, List.length_take] at hmissing
    cases harrival : t.arrival with
    | bytes more =>
      simp only [taken, offered, harrival] at hmissing ⊢
      omega
    | wouldBlock => simp [taken, offered, harrival]
    | wantWrite => simp [taken, offered, harrival]
    | failed => simp [taken, offered, harrival]
  rw [hbin, hstream, List.append_assoc, ← List.take_add]
  rcases htaken with heq | ⟨htk, hoff⟩
  · rw [heq]
  · rw [List.take_of_length_le (by omega), List.take_of_length_le (by omega)]

/-- The part of the property that no schedule breaks. -/
def Safe (length : Nat) (c : Client) (ts : List Turn) : Outcome → Prop
  | .returned c' => length ≤ c'.bin.length ∧ InOrder c.bin c.stream c'
  | .died _ _ c' => c'.bin.length < length ∧ InOrder c.bin c.stream c'
  | .waiting c' => c'.bin.length < length ∧ InOrder c.bin c.stream c' ∧
      c'.bin = c.bin ++ c.stream.take (offered ts)

theorem inOrder_refl (c : Client) : InOrder c.bin c.stream c := ⟨List.prefix_rfl, rfl⟩

theorem safe_readLoop (c : Client) (ts : List Turn) :
    Safe length c ts (readLoop ssl length c ts) := by
  induction ts generalizing c with
  | nil =>
    rw [readLoop]
    split
    · next henough => exact ⟨henough, inOrder_refl c⟩
    · next hmissing => exact ⟨by omega, inOrder_refl c, by simp [offered]⟩
  | cons t ts ih =>
    rw [readLoop]
    split
    · next henough => exact ⟨henough, inOrder_refl c⟩
    · next hmissing =>
      cases hturn : turn ssl length c t with
      | error d => exact ⟨by omega, inOrder_refl c⟩
      | ok c' =>
        have horder := inOrder_turn hturn
        have hsafe := ih c'
        dsimp only
        generalize hout : readLoop ssl length c' ts = out at hsafe
        cases out with
        | returned c'' => exact ⟨hsafe.1, horder.trans hsafe.2⟩
        | died d t' c'' => exact ⟨hsafe.1, horder.trans hsafe.2⟩
        | waiting c'' =>
          obtain ⟨hshort, horder', hbin⟩ := hsafe
          have hshort' : c'.bin.length < length :=
            Nat.lt_of_le_of_lt horder'.1.length_le hshort
          refine ⟨hshort, horder.trans horder', hbin.trans ?_⟩
          exact bin_turn hturn hshort' (offered ts)

/-- A call dies without a reason exactly if it meets a stale turn. -/
theorem justified_iff (c : Client) (ts : List Turn) :
    (∀ d t c', readLoop ssl length c ts = .died d t c' → Justified d t c') ↔
      NeverStale ssl length c ts := by
  induction ts generalizing c with
  | nil =>
    rw [readLoop]
    refine iff_of_true (fun d t c' h => ?_) trivial
    split at h <;> cases h
  | cons t ts ih =>
    rw [readLoop, NeverStale]
    by_cases henough : length ≤ c.bin.length
    · rw [if_pos henough]
      exact iff_of_true (fun _ _ _ h => by cases h) fun hmissing => by omega
    · rw [if_neg henough, forall_prop_of_true (by omega)]
      cases hturn : turn ssl length c t with
      | error d =>
        simp only [Outcome.died.injEq, and_imp, reduceCtorEq, false_implies, implies_true,
          and_true]
        constructor
        · intro h hstale
          have herror : turn ssl length c t = .error .closedUnexpectedly := turn_of_stale hstale
          obtain rfl := Except.error.inj (hturn.symm.trans herror)
          exact not_justified_of_stale hstale (h _ t c rfl rfl rfl)
        · rintro hfresh _ _ _ rfl rfl rfl
          exact (turn_error hturn).resolve_right fun h => hfresh h.2
      | ok c' =>
        simp only [Except.ok.injEq, forall_eq']
        rw [← ih c']
        refine (and_iff_right fun hstale => ?_).symm
        exact absurd (hturn.symm.trans (turn_of_stale hstale)) (by simp)

/-- A call of `_sysread` does what it should under a schedule exactly if no turn of it is
stale. -/
theorem sysread_correct_iff (ssl : Bool) (length : Nat) (bin stream : List Byte) (eintr : Bool)
    (ts : List Turn) :
    Correct length bin stream ts (sysread ssl length bin stream eintr ts) ↔
      NeverStale ssl length { bin := bin, stream := stream, eintr := eintr } ts := by
  rw [← justified_iff, sysread]
  have hsafe : Safe length { bin := bin, stream := stream, eintr := eintr } ts
      (readLoop ssl length { bin := bin, stream := stream, eintr := eintr } ts) := safe_readLoop _ ts
  generalize readLoop ssl length { bin := bin, stream := stream, eintr := eintr } ts = out at hsafe
  cases out with
  | returned c => exact iff_of_true hsafe fun _ _ _ h => by cases h
  | died d t c =>
    constructor
    · rintro hcorrect _ _ _ ⟨⟩
      exact hcorrect.2.2
    · exact fun h => ⟨hsafe.1, hsafe.2, h d t c rfl⟩
  | waiting c => exact iff_of_true hsafe fun _ _ _ h => by cases h

/-- On an SSL socket no turn is. -/
theorem neverStale_ssl (c : Client) (ts : List Turn) : NeverStale true length c ts := by
  induction ts generalizing c with
  | nil => trivial
  | cons t ts ih => exact fun _ => ⟨fun h => absurd h.1 (by simp), fun c' _ => ih c'⟩

/-- One byte arrives after a wait, and the next one takes another wait. -/
def twoPieces : List Turn :=
  [⟨.wouldBlock, .ready⟩, ⟨.bytes 0, .ready⟩, ⟨.wouldBlock, .ready⟩, ⟨.bytes 0, .ready⟩]

/-- The client dies of the second wait, with the second byte on its way. -/
theorem second_wait_kills :
    ¬Correct 2 [] [1, 2] twoPieces (sysread false 2 [] [1, 2] false twoPieces) := by
  intro h
  have hdied : sysread false 2 [] [1, 2] false twoPieces =
      .died .closedUnexpectedly ⟨.wouldBlock, .ready⟩
        { bin := [1], stream := [2], n := 1, waits := [.reading] } := by
    rfl
  rw [hdied] at h
  have hjustified := h.2.2
  revert hjustified
  simp [Justified]

end Calls

end Qvd.HttpcReads
