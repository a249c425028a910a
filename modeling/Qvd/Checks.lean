import Mathlib.Data.List.Basic

/-!
Computations that may fail: a check, checks in a row, and the rules to take them apart.
-/
namespace Qvd.Checks

variable {ε α β : Type}

/-- Go on when the condition holds. -/
def check (condition : Bool) (error : ε) : Except ε Unit :=
  if condition then .ok () else .error error

/-- A check that is only made under a condition. -/
def checkWhen (condition : Bool) (x : Except ε Unit) : Except ε Unit :=
  if condition then x else .ok ()

theorem checkWhen_ok {condition : Bool} {x : Except ε Unit} :
    checkWhen condition x = .ok () ↔ (condition = true → x = .ok ()) := by
  cases condition <;> simp [checkWhen]

theorem check_ok {condition : Bool} {error : ε} :
    check condition error = .ok () ↔ condition = true := by
  cases condition <;> simp [check]

theorem bind_ok {x : Except ε α} {f : α → Except ε β} {b : β} :
    (x >>= f) = .ok b ↔ ∃ a, x = .ok a ∧ f a = .ok b := by
  cases x with
  | error e => simp [bind, Except.bind]
  | ok a => simp [bind, Except.bind]

theorem pure_ok {a b : α} : (pure a : Except ε α) = .ok b ↔ a = b := by
  simp [pure, Except.pure]

theorem exists_ok {x : Except ε α} (h : x.isOk = true) : ∃ a, x = .ok a := by
  cases x with
  | error e => cases h
  | ok a => exact ⟨a, rfl⟩

/-- A sequence whose first part has no result. -/
theorem seq_ok {x : Except ε Unit} {y : Except ε β} {b : β} :
    (x >>= fun _ => y) = .ok b ↔ x = .ok () ∧ y = .ok b := by
  rw [bind_ok]
  constructor
  · rintro ⟨_, hx, hy⟩
    exact ⟨hx, hy⟩
  · rintro ⟨hx, hy⟩
    exact ⟨(), hx, hy⟩

theorem forM_ok {f : α → Except ε Unit} (xs : List α) :
    xs.forM f = .ok () ↔ ∀ x ∈ xs, f x = .ok () := by
  induction xs with
  | nil => simp [pure, Except.pure]
  | cons x xs ih =>
    change (f x >>= fun _ => xs.forM f) = .ok () ↔ _
    rw [seq_ok, ih, List.forall_mem_cons]

/-- What every step keeps, a fold that comes to its end keeps. -/
theorem foldlM_invariant {f : β → α → Except ε β} (I : β → Prop)
    (hstep : ∀ b x b', I b → f b x = .ok b' → I b') (xs : List α) (b b' : β) (hb : I b)
    (h : xs.foldlM f b = .ok b') : I b' := by
  induction xs generalizing b with
  | nil =>
    rw [List.foldlM_nil, pure_ok] at h
    exact h ▸ hb
  | cons x xs ih =>
    rw [List.foldlM_cons, bind_ok] at h
    obtain ⟨b₁, hx, hrest⟩ := h
    exact ih b₁ (hstep b x b₁ hb hx) hrest

end Qvd.Checks
