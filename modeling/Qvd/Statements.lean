import Mathlib.Logic.Function.Basic
import Mathlib.Data.Nat.Basic

/-!
Programs that run statements on a store without a transaction: any statement may be the first
that fails, and what those before it did stays. The rules say what holds when a program is done
and when it dies, and which stores it can be stopped in.
-/
namespace Qvd.Statements

variable {σ α β : Type}

/-- The store, and how many statements still go through. -/
structure Machine (σ : Type) where
  left : ℕ
  store : σ

/-- A program gives a value or dies. -/
def Program (σ α : Type) := Machine σ → Option α × Machine σ

/-- Without a value. -/
def die : Program σ α := fun m => (none, m)

/-- One statement: refused if the function gives nothing, and failed if no more go through. -/
def statement (f : σ → Option (α × σ)) : Program σ α := fun m =>
  match m.left with
  | 0 => (none, m)
  | left + 1 =>
    match f m.store with
    | none => (none, ⟨left, m.store⟩)
    | some (a, s) => (some a, ⟨left, s⟩)

/-- A statement that changes nothing. -/
def read (f : σ → α) : Program σ α := statement fun s => some (f s, s)

instance : Monad (Program σ) where
  pure a := fun m => (some a, m)
  bind p q := fun m =>
    match p m with
    | (none, m') => (none, m')
    | (some a, m') => q a m'

theorem bind_none {p : Program σ α} {q : α → Program σ β} {m m' : Machine σ}
    (h : p m = (none, m')) : (p >>= q) m = (none, m') := by
  change (match p m with | (none, m') => (none, m') | (some a, m') => q a m') = _
  rw [h]

theorem bind_some {p : Program σ α} {q : α → Program σ β} {m m' : Machine σ} {a : α}
    (h : p m = (some a, m')) : (p >>= q) m = q a m' := by
  change (match p m with | (none, m') => (none, m') | (some a, m') => q a m') = _
  rw [h]

/-! ### What holds at the end -/

section Triples

/-- `Q` if the program is done, `E` if it died. -/
def Ends (Q : α → σ → Prop) (E : σ → Prop) : Option α × Machine σ → Prop
  | (some a, m) => Q a m.store
  | (none, m) => E m.store

/-- From every store with `P`, however many statements go through. -/
def Triple (P : σ → Prop) (p : Program σ α) (Q : α → σ → Prop) (E : σ → Prop) : Prop :=
  ∀ m : Machine σ, P m.store → Ends Q E (p m)

variable {P : σ → Prop} {Q : α → σ → Prop} {R : β → σ → Prop} {E : σ → Prop}

theorem Triple.pure {a : α} (h : ∀ s, P s → Q a s) : Triple P (pure a : Program σ α) Q E :=
  fun m hP => h m.store hP

theorem Triple.die (h : ∀ s, P s → E s) : Triple P (die : Program σ α) Q E :=
  fun m hP => h m.store hP

theorem Triple.statement {f : σ → Option (α × σ)}
    (hdone : ∀ s a s', P s → f s = some (a, s') → Q a s') (hdied : ∀ s, P s → E s) :
    Triple P (statement f) Q E := by
  intro m hP
  obtain ⟨left, s⟩ := m
  cases left with
  | zero => exact hdied s hP
  | succ left =>
    unfold Statements.statement
    cases hf : f s with
    | none => simpa [hf, Ends] using hdied s hP
    | some result => simpa [hf, Ends] using hdone s result.1 result.2 hP hf

theorem Triple.read {f : σ → α} (hdone : ∀ s, P s → Q (f s) s) (hdied : ∀ s, P s → E s) :
    Triple P (read f) Q E := by
  refine Triple.statement (fun s a s' hP h => ?_) hdied
  cases h
  exact hdone s hP

/-- What is read from a known store. -/
theorem Triple.read_eq {f : σ → α} {s : σ} (hdied : ∀ s', s' = s → E s') :
    Triple (fun s' => s' = s) (Statements.read f) (fun a s' => a = f s ∧ s' = s) E :=
  Triple.read (fun _ h => ⟨congrArg f h, h⟩) hdied

theorem Triple.bind {p : Program σ α} {q : α → Program σ β} (hp : Triple P p Q E)
    (hq : ∀ a, Triple (Q a) (q a) R E) : Triple P (p >>= q) R E := by
  intro m hP
  have hends := hp m hP
  rcases h : p m with ⟨_ | a, m'⟩
  · rw [h] at hends
    rw [bind_none h]
    exact hends
  · rw [h] at hends
    rw [bind_some h]
    exact hq a m' hends

theorem Triple.consequence {P' : σ → Prop} {Q' : α → σ → Prop} {E' : σ → Prop}
    {p : Program σ α} (hp : Triple P p Q E) (hP : ∀ s, P' s → P s)
    (hQ : ∀ a s, Q a s → Q' a s) (hE : ∀ s, E s → E' s) : Triple P' p Q' E' := by
  intro m hm
  have hends := hp m (hP m.store hm)
  revert hends
  rcases p m with ⟨_ | a, m'⟩
  · exact hE m'.store
  · exact hQ a m'.store

theorem Triple.and {Q' : α → σ → Prop} {E' : σ → Prop} {p : Program σ α}
    (h : Triple P p Q E) (h' : Triple P p Q' E') :
    Triple P p (fun a s => Q a s ∧ Q' a s) (fun s => E s ∧ E' s) := by
  intro m hP
  have hends := h m hP
  have hends' := h' m hP
  revert hends hends'
  rcases p m with ⟨_ | a, m'⟩
  · exact fun hE hE' => ⟨hE, hE'⟩
  · exact fun hQ hQ' => ⟨hQ, hQ'⟩

/-- Assertions that hold anyway. -/
theorem Triple.of_post {p : Program σ α} (hQ : ∀ a s, Q a s) (hE : ∀ s, E s) :
    Triple P p Q E := by
  intro m _
  rcases p m with ⟨_ | a, m'⟩
  · exact hE m'.store
  · exact hQ a m'.store

/-- From one store at a time. -/
theorem Triple.of_store {p : Program σ α}
    (h : ∀ s, P s → Triple (fun s' => s' = s) p Q E) : Triple P p Q E :=
  fun m hP => h m.store hP m rfl

/-- A fact that does not speak of the store. -/
theorem Triple.of_fact {fact : Prop} {p : Program σ α} (h : fact → Triple P p Q E) :
    Triple (fun s => fact ∧ P s) p Q E := fun m hP => h hP.1 m hP.2

theorem Triple.of_exists {ι : Type} {P : ι → σ → Prop} {p : Program σ α}
    (h : ∀ i, Triple (P i) p Q E) : Triple (fun s => ∃ i, P i s) p Q E := by
  rintro m ⟨i, hP⟩
  exact h i m hP

theorem Triple.of_false {p : Program σ α} : Triple (fun _ => False) p Q E := fun _ h => h.elim

/-- A loop, with an assertion about the part of the list that is done. -/
theorem Triple.forM {I : List β → σ → Prop} {body : β → Program σ Unit} {items : List β}
    (hbody : ∀ front item, item ∈ items →
      Triple (I front) (body item) (fun _ => I (front ++ [item])) E) (front : List β) :
    Triple (I front) (items.forM body) (fun _ => I (front ++ items)) E := by
  induction items generalizing front with
  | nil =>
    refine Triple.pure fun s h => ?_
    rwa [List.append_nil]
  | cons item items ih =>
    refine Triple.bind (hbody front item List.mem_cons_self) fun _ => ?_
    have hrest := ih (fun front other hmem => hbody front other (List.mem_cons_of_mem _ hmem))
      (front ++ [item])
    rwa [List.append_assoc, List.singleton_append] at hrest

/-- A loop that keeps an assertion. -/
theorem Triple.forM_inv {I : σ → Prop} {body : β → Program σ Unit} {items : List β}
    (hbody : ∀ item ∈ items, Triple I (body item) (fun _ => I) E) :
    Triple I (items.forM body) (fun _ => I) E :=
  Triple.forM (fun _ item hmem => hbody item hmem) []

end Triples

/-! ### Where a program can be stopped -/

section Stops

/-- When nothing goes through any more, the store stays as it is. -/
def Idle (p : Program σ α) : Prop := ∀ s, (p ⟨0, s⟩).2 = ⟨0, s⟩

/-- And the program dies. -/
def Stuck (p : Program σ α) : Prop := ∀ s, p ⟨0, s⟩ = (none, ⟨0, s⟩)

/-- With enough statements left the program is done, and spends a fixed number of them. -/
def Gives (p : Program σ α) (s : σ) (a : α) (s' : σ) : Prop :=
  ∃ spent, ∀ left, p ⟨spent + left, s⟩ = (some a, ⟨left, s'⟩)

/-- The program can be stopped in such a store. -/
def Reaches (p : Program σ α) (s : σ) (P : σ → Prop) : Prop :=
  ∃ left s', (p ⟨left, s⟩).2 = ⟨0, s'⟩ ∧ P s'

/-- And dies there. -/
def Dies (p : Program σ α) (s : σ) (P : σ → Prop) : Prop :=
  ∃ left s', p ⟨left, s⟩ = (none, ⟨0, s'⟩) ∧ P s'

variable {p : Program σ α} {q : α → Program σ β} {s s' s'' : σ} {a : α} {b : β} {P : σ → Prop}

theorem Stuck.idle (h : Stuck p) : Idle p := fun s => by rw [h s]

theorem Idle.pure (a : α) : Idle (pure a : Program σ α) := fun _ => rfl

theorem Idle.die : Idle (die : Program σ α) := fun _ => rfl

theorem Stuck.statement (f : σ → Option (α × σ)) : Stuck (statement f) := fun _ => rfl

theorem Stuck.die : Stuck (die : Program σ α) := fun _ => rfl

theorem Idle.cases (h : Idle p) (s : σ) :
    p ⟨0, s⟩ = (none, ⟨0, s⟩) ∨ ∃ a, p ⟨0, s⟩ = (some a, ⟨0, s⟩) := by
  have hstore := h s
  rcases hrun : p ⟨0, s⟩ with ⟨_ | a, m⟩
  · rw [hrun] at hstore
    exact .inl (congrArg _ hstore)
  · rw [hrun] at hstore
    exact .inr ⟨a, congrArg _ hstore⟩

theorem Idle.bind (hp : Idle p) (hq : ∀ a, Idle (q a)) : Idle (p >>= q) := by
  intro s
  obtain h | ⟨a, h⟩ := hp.cases s
  · rw [bind_none h]
  · rw [bind_some h]
    exact hq a s

theorem Stuck.bind_left (hp : Stuck p) : Stuck (p >>= q) := fun s => bind_none (hp s)

theorem Stuck.bind_right (hp : Idle p) (hq : ∀ a, Stuck (q a)) : Stuck (p >>= q) := by
  intro s
  obtain h | ⟨a, h⟩ := hp.cases s
  · rw [bind_none h]
  · rw [bind_some h]
    exact hq a s

theorem Idle.forM {body : β → Program σ Unit} (h : ∀ item, Idle (body item)) (items : List β) :
    Idle (items.forM body) := by
  induction items with
  | nil => exact Idle.pure _
  | cons item items ih => exact (h item).bind fun _ => ih

theorem Gives.pure (a : α) (s : σ) : Gives (pure a : Program σ α) s a s :=
  ⟨0, fun left => by rw [Nat.zero_add]; rfl⟩

theorem Gives.statement {f : σ → Option (α × σ)} (h : f s = some (a, s')) :
    Gives (statement f) s a s' := by
  refine ⟨1, fun left => ?_⟩
  rw [Nat.add_comm]
  simp only [Statements.statement, h]

theorem Gives.bind (hp : Gives p s a s') (hq : Gives (q a) s' b s'') :
    Gives (p >>= q) s b s'' := by
  obtain ⟨first, hfirst⟩ := hp
  obtain ⟨second, hsecond⟩ := hq
  refine ⟨first + second, fun left => ?_⟩
  rw [Nat.add_assoc, bind_some (hfirst _), hsecond left]

theorem Gives.reaches (h : Gives p s a s') (hs' : P s') : Reaches p s P := by
  obtain ⟨spent, hspent⟩ := h
  exact ⟨spent + 0, s', by rw [hspent 0], hs'⟩

theorem Reaches.bind_left (hp : Reaches p s P) (hq : ∀ a, Idle (q a)) :
    Reaches (p >>= q) s P := by
  obtain ⟨left, s', hstop, hs'⟩ := hp
  refine ⟨left, s', ?_, hs'⟩
  rcases hrun : p ⟨left, s⟩ with ⟨_ | a, m⟩
  · rw [hrun] at hstop
    rwa [bind_none hrun]
  · rw [hrun] at hstop
    rw [bind_some hrun, show m = ⟨0, s'⟩ from hstop]
    exact hq a s'

theorem Reaches.bind_right (hp : Gives p s a s') (hq : Reaches (q a) s' P) :
    Reaches (p >>= q) s P := by
  obtain ⟨spent, hspent⟩ := hp
  obtain ⟨left, s'', hstop, hs''⟩ := hq
  exact ⟨spent + left, s'', by rwa [bind_some (hspent left)], hs''⟩

/-- Stopped there, it dies if a statement has still to come. -/
theorem Reaches.dies (hp : Reaches p s P) (hq : ∀ a, Stuck (q a)) : Dies (p >>= q) s P := by
  obtain ⟨left, s', hstop, hs'⟩ := hp
  refine ⟨left, s', ?_, hs'⟩
  rcases hrun : p ⟨left, s⟩ with ⟨_ | a, m⟩
  · rw [hrun] at hstop
    rw [bind_none hrun, show m = ⟨0, s'⟩ from hstop]
  · rw [hrun] at hstop
    rw [bind_some hrun, show m = ⟨0, s'⟩ from hstop]
    exact hq a s'

theorem Dies.bind_right (hp : Gives p s a s') (hq : Dies (q a) s' P) : Dies (p >>= q) s P := by
  obtain ⟨spent, hspent⟩ := hp
  obtain ⟨left, s'', hstop, hs''⟩ := hq
  exact ⟨spent + left, s'', by rwa [bind_some (hspent left)], hs''⟩

theorem Gives.read (f : σ → α) (s : σ) : Gives (read f) s (f s) s := Gives.statement rfl

theorem Stuck.read (f : σ → α) : Stuck (Statements.read f) := Stuck.statement _

end Stops

end Qvd.Statements
