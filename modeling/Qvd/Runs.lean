import Mathlib.Data.Set.Basic

/-!
Runs of a labelled transition system, kept with their history.
A run remembers the state before each step together with the label of the step,
so that a condition on steps and a property of states are stated about the same run.
-/
namespace Qvd.Runs

variable {S A : Type*}

/-- Initial states and labelled steps. -/
structure System (S A : Type*) where
  init : S → Prop
  step : S → A → S → Prop

/-- A finite run: the steps taken, the latest first, and the state reached. -/
inductive System.Run (sys : System S A) : List (S × A) → S → Prop
  | start {s : S} (h : sys.init s) : Run sys [] s
  | extend {past : List (S × A)} {s t : S} {a : A} (h : Run sys past s)
      (hs : sys.step s a t) : Run sys ((s, a) :: past) t

/-- A state some run ends in. -/
def System.Reachable (sys : System S A) (s : S) : Prop :=
  ∃ past, sys.Run past s

/-- The property holds in every state the run has been in. -/
def Always (I : S → Prop) (past : List (S × A)) (s : S) : Prop :=
  I s ∧ ∀ e ∈ past, I e.1

/-- Every step of the run meets the condition. -/
def AllSteps (ok : S → A → Prop) (past : List (S × A)) : Prop :=
  ∀ e ∈ past, ok e.1 e.2

/-- Every step meets a condition that may look at the steps before it. -/
def EachStep (ok : List (S × A) → S → A → Prop) : List (S × A) → Prop
  | [] => True
  | (s, a) :: past => ok past s a ∧ EachStep ok past

/-- Every transition of the run, with the state it leads to, has the property. -/
def EachTransition (P : S → A → S → Prop) : List (S × A) → S → Prop
  | [], _ => True
  | (s, a) :: past, t => P s a t ∧ EachTransition P past s

/-- The property holds in every state the run has been in, with the history up to there. -/
def AlwaysSince (I : List (S × A) → S → Prop) : List (S × A) → S → Prop
  | [], s => I [] s
  | (s, a) :: past, t => I ((s, a) :: past) t ∧ AlwaysSince I past s

theorem AlwaysSince.now {I : List (S × A) → S → Prop} {past : List (S × A)} {s : S}
    (h : AlwaysSince I past s) : I past s := by
  cases past with
  | nil => exact h
  | cons _ _ => exact h.1

theorem eachStep_const (ok : S → A → Prop) (past : List (S × A)) :
    EachStep (fun _ => ok) past ↔ AllSteps ok past := by
  induction past with
  | nil => simp [EachStep, AllSteps]
  | cons e past ih =>
    show ok e.1 e.2 ∧ EachStep (fun _ => ok) past ↔ _
    rw [ih]
    simp only [AllSteps, List.forall_mem_cons]

theorem always_cons (I : S → Prop) (past : List (S × A)) (s t : S) (a : A) :
    Always I ((s, a) :: past) t ↔ I t ∧ Always I past s := by
  simp only [Always, List.forall_mem_cons]

theorem allSteps_cons (ok : S → A → Prop) (past : List (S × A)) (s : S) (a : A) :
    AllSteps ok ((s, a) :: past) ↔ ok s a ∧ AllSteps ok past := by
  simp only [AllSteps, List.forall_mem_cons]

namespace System

variable {sys : System S A}

/-- The invariant rule: what holds at the start and is kept by every step holds throughout. -/
theorem Run.always {I : S → Prop} (h0 : ∀ s, sys.init s → I s)
    (hs : ∀ s a t, I s → sys.step s a t → I t) {past : List (S × A)} {s : S}
    (run : sys.Run past s) : Always I past s := by
  induction run with
  | start h => exact ⟨h0 _ h, by simp⟩
  | extend _ hstep ih => exact (always_cons I _ _ _ _).mpr ⟨hs _ _ _ ih.1 hstep, ih⟩

theorem Reachable.invariant {I : S → Prop} (h0 : ∀ s, sys.init s → I s)
    (hs : ∀ s a t, I s → sys.step s a t → I t) {s : S} (h : sys.Reachable s) : I s := by
  obtain ⟨past, run⟩ := h
  exact (run.always h0 hs).1

/-- The invariant rule for runs all of whose steps meet a condition. -/
theorem Run.always_of_allSteps {I : S → Prop} {ok : S → A → Prop}
    (h0 : ∀ s, sys.init s → I s)
    (hs : ∀ s a t, I s → ok s a → sys.step s a t → I t) {past : List (S × A)} {s : S}
    (run : sys.Run past s) (hok : AllSteps ok past) : Always I past s := by
  induction run with
  | start h => exact ⟨h0 _ h, by simp⟩
  | extend _ hstep ih =>
    obtain ⟨ha, hpast⟩ := (allSteps_cons ok _ _ _).mp hok
    have hI := ih hpast
    exact (always_cons I _ _ _ _).mpr ⟨hs _ _ _ hI.1 ha hstep, hI⟩

/-- When a step keeps the property exactly if it meets the condition, a run keeps the
property throughout exactly if all its steps meet the condition. -/
theorem Run.always_iff_allSteps {I : S → Prop} {ok : S → A → Prop}
    (h0 : ∀ s, sys.init s → I s)
    (hs : ∀ s a t, I s → sys.step s a t → (I t ↔ ok s a)) {past : List (S × A)} {s : S}
    (run : sys.Run past s) : Always I past s ↔ AllSteps ok past := by
  constructor
  · intro h
    induction run with
    | start _ => simp [AllSteps]
    | extend _ hstep ih =>
      obtain ⟨ht, hpast⟩ := (always_cons I _ _ _ _).mp h
      exact (allSteps_cons ok _ _ _).mpr
        ⟨(hs _ _ _ hpast.1 hstep).mp ht, ih hpast⟩
  · exact run.always_of_allSteps h0 (fun s a t hI ha hstep => (hs s a t hI hstep).mpr ha)

/-- The invariant rule with the history of the run in view. -/
theorem Run.invariant {I : List (S × A) → S → Prop} (h0 : ∀ s, sys.init s → I [] s)
    (hs : ∀ past s a t, I past s → sys.step s a t → I ((s, a) :: past) t)
    {past : List (S × A)} {s : S} (run : sys.Run past s) : I past s := by
  induction run with
  | start h => exact h0 _ h
  | extend _ hstep ih => exact hs _ _ _ _ ih hstep

/-- The history of a run holds only steps of the system. -/
theorem Run.step_mem {past : List (S × A)} {s : S} (run : sys.Run past s) :
    ∀ e ∈ past, ∃ t, sys.step e.1 e.2 t := by
  induction run with
  | start _ => simp
  | extend _ hstep ih =>
    rw [List.forall_mem_cons]
    exact ⟨⟨_, hstep⟩, ih⟩

/-- When a transition has the property exactly if its step meets the condition, all of a
run's transitions have it exactly if all its steps meet the condition. -/
theorem Run.eachTransition_iff {P : S → A → S → Prop} {ok : S → A → Prop}
    (h : ∀ s a t, sys.step s a t → (P s a t ↔ ok s a)) {past : List (S × A)} {s : S}
    (run : sys.Run past s) : EachTransition P past s ↔ AllSteps ok past := by
  induction run with
  | start _ => simp [EachTransition, AllSteps]
  | extend _ hstep ih =>
    rw [allSteps_cons, ← h _ _ _ hstep, ← ih]
    exact Iff.rfl

/-- What holds of every step from a state within the invariant holds of all transitions of
a run that stays within it. -/
theorem Run.eachTransition_of_always {I : S → Prop} {P : S → A → S → Prop}
    (h : ∀ s a t, I s → sys.step s a t → P s a t) {past : List (S × A)} {s : S}
    (run : sys.Run past s) (hI : Always I past s) : EachTransition P past s := by
  induction run with
  | start _ => trivial
  | extend _ hstep ih =>
    have hpast := ((always_cons I _ _ _ _).mp hI).2
    exact ⟨h _ _ _ hpast.1 hstep, ih hpast⟩

/-- The same for a property of states and one of transitions, under an invariant. -/
theorem Run.always_and_eachTransition_iff {K I : S → Prop} {P : S → A → S → Prop}
    {ok : S → A → Prop} (h0 : ∀ s, sys.init s → K s ∧ I s)
    (hK : ∀ s a t, K s → sys.step s a t → K t)
    (hs : ∀ s a t, K s → I s → sys.step s a t → (I t ∧ P s a t ↔ ok s a))
    {past : List (S × A)} {s : S} (run : sys.Run past s) :
    Always I past s ∧ EachTransition P past s ↔ AllSteps ok past := by
  induction run with
  | start h => simp [Always, EachTransition, AllSteps, (h0 _ h).2]
  | @extend past s t a run hstep ih =>
    have hk := (run.always (fun s h => (h0 s h).1) hK).1
    rw [always_cons, allSteps_cons, ← ih]
    show (I t ∧ Always I past s) ∧ P s a t ∧ EachTransition P past s ↔ _
    constructor
    · rintro ⟨⟨ht, hI⟩, hP, hpast⟩
      exact ⟨(hs s a t hk hI.1 hstep).mp ⟨ht, hP⟩, hI, hpast⟩
    · rintro ⟨ha, hI, hpast⟩
      obtain ⟨ht, hP⟩ := (hs s a t hk hI.1 hstep).mpr ha
      exact ⟨⟨ht, hI⟩, hP, hpast⟩

/-- When a step keeps a property of the history exactly if it meets the condition, a run
keeps the property throughout exactly if all its steps meet the condition. -/
theorem Run.alwaysSince_iff_allSteps {I : List (S × A) → S → Prop} {ok : S → A → Prop}
    (h0 : ∀ s, sys.init s → I [] s)
    (hs : ∀ past s a t, sys.Run past s → I past s → sys.step s a t →
      (I ((s, a) :: past) t ↔ ok s a))
    {past : List (S × A)} {s : S} (run : sys.Run past s) :
    AlwaysSince I past s ↔ AllSteps ok past := by
  induction run with
  | start h => exact iff_of_true (h0 _ h) (by simp [AllSteps])
  | extend run hstep ih =>
    rw [allSteps_cons, ← ih]
    exact and_congr_left fun hpast => hs _ _ _ _ run hpast.now hstep

/-- Conditions that agree on every step a run can take agree on runs. -/
theorem Run.eachStep_congr {ok ok' : List (S × A) → S → A → Prop}
    (h : ∀ past s a t, sys.Run past s → sys.step s a t → (ok past s a ↔ ok' past s a))
    {past : List (S × A)} {s : S} (run : sys.Run past s) :
    EachStep ok past ↔ EachStep ok' past := by
  induction run with
  | start _ => exact Iff.rfl
  | extend run hstep ih =>
    show _ ∧ _ ↔ _ ∧ _
    rw [h _ _ _ _ run hstep, ih]

end System

end Qvd.Runs
