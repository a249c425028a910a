import Mathlib.Data.Nat.Notation
import Mathlib.Tactic.Common

/-!
One direction of a relay between two streams. A round appends what was read to
a pending queue, hands a prefix of the queue on, and may close either end. The
rule that closes the outgoing end after a hand-over is a parameter `shuts`, so
that the same facts serve a relay whose rule is the intended one and a relay
whose rule is not.
-/
namespace Qvd.HalfRelay

variable {B : Type*}

/-- `received` and `delivered` record the history; `pending` lies between. -/
structure Relay (B : Type*) where
  pending : List B
  inClosed : Bool
  outClosed : Bool
  received : List B
  delivered : List B

/-- One round: items read, whether the end of the input was read instead, and
how many items were handed on (zero when none could be). -/
structure Round (B : Type*) where
  arrived : List B
  ended : Bool
  taken : ℕ

namespace Relay

def queued (s : Relay B) (r : Round B) : List B := s.pending ++ r.arrived

def left (s : Relay B) (r : Round B) : List B := (s.queued r).drop r.taken

/-- The outgoing end closes either by the rule `shuts`, tried after a
hand-over once the input has ended, or because the input ends now with
nothing left. -/
def round (shuts : List B → Bool) (s : Relay B) (r : Round B) : Relay B where
  pending := s.left r
  inClosed := s.inClosed || r.ended
  outClosed := s.outClosed ||
    (decide (0 < r.taken) && s.inClosed && shuts (s.left r)) ||
    (r.ended && (s.left r).isEmpty)
  received := s.received ++ r.arrived
  delivered := s.delivered ++ (s.queued r).take r.taken

/-- Nothing is lost, and the outgoing end is closed exactly when the input has
ended and the queue has drained. -/
structure Exact (s : Relay B) : Prop where
  conserved : s.received = s.delivered ++ s.pending
  closed_iff : s.outClosed = true ↔ s.inClosed = true ∧ s.pending = []

/-- Rounds a relay can really take: a closed input yields nothing more, a
closed output takes nothing, and only queued items are handed on. -/
structure Legal (s : Relay B) (r : Round B) : Prop where
  in_closed : s.inClosed = true → r.arrived = [] ∧ r.ended = false
  out_closed : s.outClosed = true → r.taken = 0
  arrived_or_ended : r.ended = true → r.arrived = []
  taken_le : r.taken ≤ (s.queued r).length

theorem Exact.delivered_eq (s : Relay B) (h : s.Exact) (hout : s.outClosed = true) :
    s.delivered = s.received := by
  have hnil := (h.closed_iff.mp hout).2
  rw [h.conserved, hnil, List.append_nil]

theorem round_conserved (shuts : List B → Bool) (s : Relay B) (r : Round B)
    (h : s.received = s.delivered ++ s.pending) :
    (s.round shuts r).received = (s.round shuts r).delivered ++ (s.round shuts r).pending := by
  simp only [round, left, queued, h, List.append_assoc, List.take_append_drop]

/-- After a round the outgoing end is in its right position exactly when the
closing rule gave the right answer, if it was consulted at all. -/
theorem round_exact_iff (shuts : List B → Bool) (s : Relay B) (r : Round B)
    (h : s.Exact) (hr : s.Legal r) :
    (s.round shuts r).Exact ↔
      (s.inClosed = true → 0 < r.taken → (shuts (s.left r) = true ↔ s.left r = [])) := by
  have hcons := round_conserved shuts s r h.conserved
  have hiff : (s.round shuts r).Exact ↔
      ((s.round shuts r).outClosed = true ↔
        (s.round shuts r).inClosed = true ∧ (s.round shuts r).pending = []) :=
    ⟨fun e => e.closed_iff, fun e => ⟨hcons, e⟩⟩
  rw [hiff]
  simp only [round, Bool.or_eq_true, Bool.and_eq_true, decide_eq_true_eq, List.isEmpty_iff]
  by_cases hin : s.inClosed = true
  · obtain ⟨harr, hend⟩ := hr.in_closed hin
    simp only [hin, hend, true_and, and_true, Bool.false_eq_true, false_and, or_false,
      forall_const]
    by_cases hout : s.outClosed = true
    · -- a closed output has an empty queue and hands nothing on
      have htaken := hr.out_closed hout
      have hpend := (h.closed_iff.mp hout).2
      simp [hout, htaken, left, queued, hpend, harr]
    · simp only [hout]
      by_cases htaken : 0 < r.taken
      · simp [htaken]
      · have hzero : r.taken = 0 := by omega
        have hpend : s.pending ≠ [] := fun hnil => hout (h.closed_iff.mpr ⟨hin, hnil⟩)
        simp [hzero, left, queued, harr, hpend]
  · have hout : ¬ s.outClosed = true := fun ho => hin (h.closed_iff.mp ho).1
    simp [hin, hout]

/-- With the intended rule every legal round keeps the relay exact. -/
theorem round_exact (s : Relay B) (r : Round B) (h : s.Exact) (hr : s.Legal r) :
    (s.round List.isEmpty r).Exact :=
  (round_exact_iff List.isEmpty s r h hr).mpr fun _ _ => List.isEmpty_iff

/-- With the inverted rule the relay stays exact precisely when the rule is
not consulted: no hand-over after the end of the input. -/
theorem round_inverted_exact_iff (s : Relay B) (r : Round B) (h : s.Exact) (hr : s.Legal r) :
    (s.round (fun q => !q.isEmpty) r).Exact ↔ (s.inClosed = true → r.taken = 0) := by
  rw [round_exact_iff _ s r h hr]
  have hwrong : ¬ ((!(s.left r).isEmpty) = true ↔ s.left r = []) := by
    cases s.left r <;> simp
  constructor
  · intro hright hin
    by_contra hne
    exact hwrong (hright hin (by omega))
  · intro hzero hin htaken
    have := hzero hin
    omega

end Relay
end Qvd.HalfRelay
