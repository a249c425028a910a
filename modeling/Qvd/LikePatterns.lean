import Mathlib.Data.List.Infix
import Qvd.LineText

/-!
The patterns of `LIKE`: a percent sign stands for any text, an underscore for any character, and
a backslash takes the next character as it is.
-/
namespace Qvd.LikePatterns

open LineText

/-- The pattern matches the text. A backslash at the end matches nothing. -/
def like : Text → Text → Bool
  | [], x => x.isEmpty
  | '%' :: p, x => x.tails.any fun y => like p y
  | '_' :: p, _ :: x => like p x
  | '_' :: _, [] => false
  | '\\' :: c :: p, d :: x => c == d && like p x
  | ['\\'], _ => false
  | '\\' :: _ :: _, [] => false
  | c :: p, d :: x => c == d && like p x
  | _ :: _, [] => false

/-- A text as a pattern for itself. -/
def escape (t : Text) : Text := t.flatMap fun c => ['\\', c]

def isSpecial (c : Char) : Bool := c == '%' || c == '_' || c == '\\'

variable {p t x : Text}

theorem like_nil : like [] x = true ↔ x = [] := by
  unfold like
  exact List.isEmpty_iff

theorem like_percent : like ('%' :: p) x = true ↔ ∃ front y, x = front ++ y ∧ like p y = true := by
  rw [like, List.any_eq_true]
  simp only [List.mem_tails]
  constructor
  · rintro ⟨y, ⟨front, rfl⟩, hy⟩
    exact ⟨front, y, rfl, hy⟩
  · rintro ⟨front, y, rfl, hy⟩
    exact ⟨y, List.suffix_append front y, hy⟩

/-- Behind a text taken as it is. -/
theorem like_escape_append : like (escape t ++ p) x = true ↔ ∃ y, x = t ++ y ∧ like p y = true := by
  induction t generalizing x with
  | nil => simp [escape]
  | cons c t ih =>
    have hpattern : escape (c :: t) ++ p = '\\' :: c :: (escape t ++ p) := rfl
    rw [hpattern]
    cases x with
    | nil => simp [like]
    | cons d x =>
      rw [like, Bool.and_eq_true, beq_iff_eq, ih]
      constructor
      · rintro ⟨rfl, y, rfl, hy⟩
        exact ⟨y, rfl, hy⟩
      · rintro ⟨y, hx, hy⟩
        obtain ⟨rfl, rfl⟩ := List.cons.inj hx
        exact ⟨rfl, y, rfl, hy⟩

theorem like_cons_cons {c d : Char} (h : isSpecial c = false) :
    like (c :: p) (d :: x) = (c == d && like p x) := by
  rw [like.eq_def]
  split <;> simp_all [isSpecial]

theorem like_cons_nil {c : Char} (h : isSpecial c = false) : like (c :: p) [] = false := by
  rw [like.eq_def]
  split <;> simp_all [isSpecial]

/-- A text without special characters needs no escape. -/
theorem like_plain_append (h : ∀ c ∈ t, isSpecial c = false) :
    like (t ++ p) x = true ↔ ∃ y, x = t ++ y ∧ like p y = true := by
  induction t generalizing x with
  | nil => simp
  | cons c t ih =>
    obtain ⟨hc, ht⟩ := List.forall_mem_cons.mp h
    rw [List.cons_append]
    cases x with
    | nil => simp [like_cons_nil hc]
    | cons d x =>
      rw [like_cons_cons hc, Bool.and_eq_true, beq_iff_eq, ih ht]
      constructor
      · rintro ⟨rfl, y, rfl, hy⟩
        exact ⟨y, rfl, hy⟩
      · rintro ⟨y, hx, hy⟩
        obtain ⟨rfl, rfl⟩ := List.cons.inj hx
        exact ⟨rfl, y, rfl, hy⟩

end Qvd.LikePatterns
