import Mathlib.Data.List.Nodup
import Mathlib.Data.List.Perm.Basic

/-!
Chart procedures.

Items are taken from an agenda in batches. An inactive item is expanded by itself, every
item is combined with the items of the other kind that are already in the chart, and is
then put there; what comes out is the next batch. The calls may fail, and a failure ends
the procedure. `Grown` is the closure the procedure computes; `run_result` says that, where
no item has two origins and the items grow in weight up to a bound, the procedure stops
with a chart that holds each grown item once.
-/
namespace Qvd.AgendaChart

variable {I J E α β : Type*}

/-- What is done with the items: active ones wait for an inactive partner. -/
structure Grower (I E : Type*) where
  isActive : I → Bool
  expand : I → Except E (List I)
  combine : I → I → Except E (Option I)

structure Chart (I : Type*) where
  active : List I
  inactive : List I

/-- One call for each element, keeping what the calls return. -/
def collect (f : α → Except E (Option β)) : List α → Except E (List β)
  | [] => .ok []
  | a :: l => do
    let b ← f a
    let bs ← collect f l
    return b.toList ++ bs

namespace Chart

def items (c : Chart I) : List I := c.active ++ c.inactive

def add (g : Grower I E) (c : Chart I) (x : I) : Chart I :=
  if g.isActive x then { c with active := c.active ++ [x] }
  else { c with inactive := c.inactive ++ [x] }

def map (f : I → J) (c : Chart I) : Chart J :=
  ⟨c.active.map f, c.inactive.map f⟩

end Chart

namespace Grower

def combineWith (g : Grower I E) (c : Chart I) (x : I) : Except E (List I) :=
  if g.isActive x then collect (g.combine x) c.inactive
  else collect (fun a => g.combine a x) c.active

/-- Only inactive items are expanded. -/
def expansions (g : Grower I E) (x : I) : Except E (List I) :=
  if g.isActive x then .ok [] else g.expand x

def process (g : Grower I E) (c : Chart I) (x : I) : Except E (List I) := do
  let expanded ← g.expansions x
  let combined ← g.combineWith c x
  return expanded ++ combined

/-- The items of one batch in order, with the new items that have come out so far. -/
def round (g : Grower I E) : List I → List I → Chart I → Except E (List I × Chart I)
  | new, [], c => .ok (new, c)
  | new, x :: agenda, c => do
    let ys ← g.process c x
    g.round (new ++ ys) agenda (c.add g x)

/-- Batches until nothing new comes out, `fuel` of them at most. -/
def run (g : Grower I E) : ℕ → List I → Chart I → Option (Except E (Chart I))
  | 0, _, _ => none
  | fuel + 1, agenda, c =>
    match g.round [] agenda c with
    | .error e => some (.error e)
    | .ok ([], c') => some (.ok c')
    | .ok (y :: ys, c') => g.run fuel (y :: ys) c'

def Expands (g : Grower I E) (x y : I) : Prop :=
  ∃ ys, g.expand x = .ok ys ∧ y ∈ ys

def Combines (g : Grower I E) (a b y : I) : Prop :=
  g.combine a b = .ok (some y)

/-- The items that come from the first batch. -/
inductive Grown (g : Grower I E) (start : List I) : I → Prop
  | start {x : I} (h : x ∈ start) : Grown g start x
  | expand {x y : I} (hx : Grown g start x) (hi : g.isActive x = false)
      (h : g.Expands x y) : Grown g start y
  | combine {a b y : I} (ha : Grown g start a) (hb : Grown g start b)
      (hai : g.isActive a = true) (hbi : g.isActive b = false) (h : g.Combines a b y) :
      Grown g start y

def Active (g : Grower I E) (start : List I) (x : I) : Prop :=
  g.Grown start x ∧ g.isActive x = true

def Inactive (g : Grower I E) (start : List I) (x : I) : Prop :=
  g.Grown start x ∧ g.isActive x = false

/-- Some call on grown items fails. -/
def Fails (g : Grower I E) (start : List I) : Prop :=
  (∃ x e, g.Inactive start x ∧ g.expand x = .error e) ∨
  (∃ a b e, g.Active start a ∧ g.Inactive start b ∧ g.combine a b = .error e)

/-- No grown item comes out of two places. -/
structure Unambiguous (g : Grower I E) (start : List I) : Prop where
  start_nodup : start.Nodup
  expand_nodup : ∀ x ys, g.Inactive start x → g.expand x = .ok ys → ys.Nodup
  expand_fresh : ∀ x y, g.Inactive start x → g.Expands x y → y ∉ start
  combine_fresh : ∀ a b y, g.Active start a → g.Inactive start b → g.Combines a b y →
    y ∉ start
  expand_unique : ∀ x x' y, g.Inactive start x → g.Inactive start x' → g.Expands x y →
    g.Expands x' y → x = x'
  combine_unique : ∀ a b a' b' y, g.Active start a → g.Inactive start b →
    g.Active start a' → g.Inactive start b' → g.Combines a b y → g.Combines a' b' y →
    a = a' ∧ b = b'
  expand_ne_combine : ∀ x a b y, g.Inactive start x → g.Active start a →
    g.Inactive start b → g.Expands x y → ¬ g.Combines a b y

end Grower

/-! ### Collecting results -/

section Collect

variable {f : α → Except E (Option β)}

@[simp] theorem collect_nil : collect f [] = .ok [] := rfl

/-- A successful collection splits at its first call. -/
theorem collect_cons_ok {a : α} {l : List α} {bs : List β} :
    collect f (a :: l) = .ok bs ↔
      ∃ b cs, f a = .ok b ∧ collect f l = .ok cs ∧ bs = b.toList ++ cs := by
  cases hb : f a with
  | error e => simp [collect, hb, bind, Except.bind]
  | ok b =>
    cases hl : collect f l with
    | error e => simp [collect, hb, hl, bind, Except.bind]
    | ok cs => simp [collect, hb, hl, bind, Except.bind, pure, Except.pure, eq_comm]

theorem collect_cons_error {a : α} {l : List α} {e : E} :
    collect f (a :: l) = .error e ↔
      f a = .error e ∨ (∃ b, f a = .ok b) ∧ collect f l = .error e := by
  cases hb : f a with
  | error e => simp [collect, hb, bind, Except.bind]
  | ok b =>
    cases hl : collect f l with
    | error e => simp [collect, hb, hl, bind, Except.bind]
    | ok cs => simp [collect, hb, hl, bind, Except.bind, pure, Except.pure]

theorem ok_of_collect {l : List α} {bs : List β} (h : collect f l = .ok bs) :
    ∀ a ∈ l, ∃ b, f a = .ok b := by
  induction l generalizing bs with
  | nil => simp
  | cons a l ih =>
    obtain ⟨b, cs, hb, hcs, -⟩ := collect_cons_ok.mp h
    simp only [List.forall_mem_cons]
    exact ⟨⟨b, hb⟩, ih hcs⟩

theorem mem_collect {l : List α} {bs : List β} (h : collect f l = .ok bs) (b : β) :
    b ∈ bs ↔ ∃ a ∈ l, f a = .ok (some b) := by
  induction l generalizing bs with
  | nil => simp_all
  | cons a l ih =>
    obtain ⟨b', cs, hb, hcs, rfl⟩ := collect_cons_ok.mp h
    simp only [List.mem_append, Option.mem_toList, List.exists_mem_cons_iff, ih hcs, hb,
      Except.ok.injEq]

theorem error_of_collect {l : List α} {e : E} (h : collect f l = .error e) :
    ∃ a ∈ l, f a = .error e := by
  induction l with
  | nil => simp at h
  | cons a l ih =>
    rw [List.exists_mem_cons_iff]
    rcases collect_cons_error.mp h with ha | ⟨-, hl⟩
    · exact Or.inl ha
    · exact Or.inr (ih hl)

theorem nodup_collect {l : List α} {bs : List β} (h : collect f l = .ok bs) (hl : l.Nodup)
    (hf : ∀ a ∈ l, ∀ a' ∈ l, ∀ b, f a = .ok (some b) → f a' = .ok (some b) → a = a') :
    bs.Nodup := by
  induction l generalizing bs with
  | nil => simp_all
  | cons a l ih =>
    obtain ⟨o, cs, hb, hcs, rfl⟩ := collect_cons_ok.mp h
    have hnd : cs.Nodup := ih hcs hl.of_cons fun x hx x' hx' =>
      hf x (List.mem_cons_of_mem _ hx) x' (List.mem_cons_of_mem _ hx')
    cases o with
    | none => exact hnd
    | some b =>
      refine List.nodup_cons.mpr ⟨fun hmem => ?_, hnd⟩
      obtain ⟨a', ha', hb'⟩ := (mem_collect hcs b).mp hmem
      have : a = a' := hf a List.mem_cons_self a' (List.mem_cons_of_mem _ ha') b hb hb'
      exact (List.nodup_cons.mp hl).1 (this ▸ ha')

/-- Mapping the results afterwards is mapping each of them. -/
theorem collect_map_result {γ : Type*} (k : β → γ) (l : List α) :
    collect (fun a => (f a).map (Option.map k)) l = (collect f l).map (List.map k) := by
  induction l with
  | nil => rfl
  | cons a l ih =>
    simp only [collect, ih]
    cases f a with
    | error e => rfl
    | ok b =>
      cases collect f l with
      | error e => rfl
      | ok cs => cases b <;> rfl

theorem collect_map {γ : Type*} (k : γ → α) (l : List γ) :
    collect f (l.map k) = collect (fun c => f (k c)) l := by
  induction l with
  | nil => rfl
  | cons a l ih => simp [collect, ih]

end Collect

/-! ### Processing one item -/

namespace Grower

variable {g : Grower I E} {start : List I} {c : Chart I} {x y : I} {ys : List I}

theorem items_add_perm (c : Chart I) (x : I) : (c.add g x).items.Perm (x :: c.items) := by
  unfold Chart.add
  split
  · simp [Chart.items]
  · have h := List.perm_append_singleton x (c.active ++ c.inactive)
    rwa [List.append_assoc] at h

theorem mem_active_add : y ∈ (c.add g x).active ↔ y ∈ c.active ∨ (y = x ∧ g.isActive x) := by
  unfold Chart.add
  split <;> simp_all

theorem mem_inactive_add :
    y ∈ (c.add g x).inactive ↔ y ∈ c.inactive ∨ (y = x ∧ g.isActive x = false) := by
  unfold Chart.add
  split <;> simp_all

/-- The calls made for an item are its expansion and then one for each partner. -/
theorem process_ok (h : g.process c x = .ok ys) :
    ∃ es cs, g.expansions x = .ok es ∧ g.combineWith c x = .ok cs ∧ ys = es ++ cs := by
  unfold process at h
  cases hes : g.expansions x with
  | error e => simp [hes, bind, Except.bind] at h
  | ok es =>
    cases hcs : g.combineWith c x with
    | error e => simp [hes, hcs, bind, Except.bind] at h
    | ok cs =>
      simp only [hes, hcs, bind, Except.bind, pure, Except.pure, Except.ok.injEq] at h
      exact ⟨es, cs, rfl, rfl, h.symm⟩

theorem process_error {e : E} (h : g.process c x = .error e) :
    g.expansions x = .error e ∨ g.combineWith c x = .error e := by
  unfold process at h
  cases hes : g.expansions x with
  | error e' =>
    have he : e' = e := by simpa [hes, bind, Except.bind] using h
    exact Or.inl (congrArg _ he)
  | ok es =>
    cases hcs : g.combineWith c x with
    | error e' => simpa [hes, hcs, bind, Except.bind] using h
    | ok cs => simp [hes, hcs, bind, Except.bind, pure, Except.pure] at h

/-- A failure is a failed call. -/
theorem calls_of_process_error {e : E} (h : g.process c x = .error e) :
    (g.isActive x = false ∧ g.expand x = .error e) ∨
      (g.isActive x = true ∧ ∃ b ∈ c.inactive, g.combine x b = .error e) ∨
      (g.isActive x = false ∧ ∃ a ∈ c.active, g.combine a x = .error e) := by
  cases hx : g.isActive x with
  | true =>
    rcases process_error h with h | h
    · simp [expansions, hx] at h
    · simp only [combineWith, hx, if_true] at h
      exact Or.inr (Or.inl ⟨rfl, error_of_collect h⟩)
  | false =>
    rcases process_error h with h | h
    · exact Or.inl ⟨rfl, by simpa [expansions, hx] using h⟩
    · simp only [combineWith, hx, Bool.false_eq_true, if_false] at h
      exact Or.inr (Or.inr ⟨rfl, error_of_collect h⟩)

/-- What comes out for an active item: its combinations with the inactive items. -/
theorem process_active (h : g.process c x = .ok ys) (hx : g.isActive x = true) :
    collect (g.combine x) c.inactive = .ok ys := by
  obtain ⟨es, cs, hes, hcs, rfl⟩ := process_ok h
  simp only [expansions, hx, if_true, Except.ok.injEq] at hes
  simpa [combineWith, hx, ← hes] using hcs

/-- What comes out for an inactive item: its expansions, then its combinations. -/
theorem process_inactive (h : g.process c x = .ok ys) (hx : g.isActive x = false) :
    ∃ es cs, g.expand x = .ok es ∧ collect (fun a => g.combine a x) c.active = .ok cs ∧
      ys = es ++ cs := by
  obtain ⟨es, cs, hes, hcs, rfl⟩ := process_ok h
  refine ⟨es, cs, ?_, ?_, rfl⟩
  · simpa [expansions, hx] using hes
  · simpa [combineWith, hx] using hcs

/-- Where the new items come from. -/
theorem mem_process (h : g.process c x = .ok ys) :
    y ∈ ys ↔ (g.isActive x = false ∧ g.Expands x y) ∨
      (g.isActive x = true ∧ ∃ b ∈ c.inactive, g.Combines x b y) ∨
      (g.isActive x = false ∧ ∃ a ∈ c.active, g.Combines a x y) := by
  cases hx : g.isActive x with
  | true =>
    have hmem := mem_collect (process_active h hx) y
    simpa [Combines] using hmem
  | false =>
    obtain ⟨es, cs, hes, hcs, rfl⟩ := process_inactive h hx
    have hexp : g.Expands x y ↔ y ∈ es := by simp [Expands, hes]
    simp [hexp, mem_collect hcs, Combines]

/-! ### What holds between two items -/

/-- The chart has had every call its items allow, and nothing has been met twice. -/
structure Consistent (g : Grower I E) (start : List I) (c : Chart I) (pending : List I) :
    Prop where
  isActive : ∀ x ∈ c.active, g.isActive x = true
  isInactive : ∀ x ∈ c.inactive, g.isActive x = false
  nodup : (c.items ++ pending).Nodup
  grown : ∀ x ∈ c.items ++ pending, g.Grown start x
  started : ∀ x ∈ start, x ∈ c.items ++ pending
  expanded : ∀ x ∈ c.inactive, ∃ ys, g.expand x = .ok ys ∧
    ∀ y ∈ ys, y ∈ c.items ++ pending
  combined : ∀ a ∈ c.active, ∀ b ∈ c.inactive, ∃ o, g.combine a b = .ok o ∧
    ∀ y ∈ o, y ∈ c.items ++ pending
  origin : ∀ y ∈ c.items ++ pending, y ∈ start ∨ (∃ x ∈ c.inactive, g.Expands x y) ∨
    ∃ a ∈ c.active, ∃ b ∈ c.inactive, g.Combines a b y

variable {pending : List I}

theorem Consistent.active_of_mem (h : g.Consistent start c pending) (hx : x ∈ c.active) :
    g.Active start x :=
  ⟨h.grown x (by simp [Chart.items, hx]), h.isActive x hx⟩

theorem Consistent.inactive_of_mem (h : g.Consistent start c pending)
    (hx : x ∈ c.inactive) : g.Inactive start x :=
  ⟨h.grown x (by simp [Chart.items, hx]), h.isInactive x hx⟩

theorem Consistent.not_mem_chart (h : g.Consistent start c (x :: pending)) :
    x ∉ c.active ∧ x ∉ c.inactive := by
  have hx : x ∉ c.items :=
    fun hc => (List.disjoint_of_nodup_append h.nodup) hc List.mem_cons_self
  simpa [Chart.items] using hx

theorem Consistent.grown_head (h : g.Consistent start c (x :: pending)) :
    g.Grown start x :=
  h.grown x (by simp)

/-- The new items are grown. -/
theorem Consistent.grown_process (h : g.Consistent start c (x :: pending))
    (hp : g.process c x = .ok ys) : ∀ y ∈ ys, g.Grown start y := by
  intro y hy
  rcases (mem_process hp).mp hy with ⟨hx, he⟩ | ⟨hx, b, hb, hc⟩ | ⟨hx, a, ha, hc⟩
  · exact Grown.expand h.grown_head hx he
  · have hb' := h.inactive_of_mem hb
    exact Grown.combine h.grown_head hb'.1 hx hb'.2 hc
  · have ha' := h.active_of_mem ha
    exact Grown.combine ha'.1 h.grown_head ha'.2 hx hc

/-- The new items have not been met before: their origin has only now been processed. -/
theorem Consistent.process_new (hu : g.Unambiguous start)
    (h : g.Consistent start c (x :: pending)) (hp : g.process c x = .ok ys) :
    ∀ y ∈ ys, y ∉ c.items ++ x :: pending := by
  intro y hy hold
  have hnot := h.not_mem_chart
  have hgx := h.grown_head
  rcases (mem_process hp).mp hy with ⟨hx, he⟩ | ⟨hx, b, hb, hc⟩ | ⟨hx, a, ha, hc⟩
  · rcases h.origin y hold with hs | ⟨z, hz, hez⟩ | ⟨a', ha', b', hb', hc'⟩
    · exact hu.expand_fresh x y ⟨hgx, hx⟩ he hs
    · have hzx := hu.expand_unique z x y (h.inactive_of_mem hz) ⟨hgx, hx⟩ hez he
      exact hnot.2 (hzx ▸ hz)
    · exact hu.expand_ne_combine x a' b' y ⟨hgx, hx⟩ (h.active_of_mem ha')
        (h.inactive_of_mem hb') he hc'
  · have hb' := h.inactive_of_mem hb
    rcases h.origin y hold with hs | ⟨z, hz, hez⟩ | ⟨a', ha', b', hb'', hc'⟩
    · exact hu.combine_fresh x b y ⟨hgx, hx⟩ hb' hc hs
    · exact hu.expand_ne_combine z x b y (h.inactive_of_mem hz) ⟨hgx, hx⟩ hb' hez hc
    · have hax := (hu.combine_unique a' b' x b y (h.active_of_mem ha')
        (h.inactive_of_mem hb'') ⟨hgx, hx⟩ hb' hc' hc).1
      exact hnot.1 (hax ▸ ha')
  · have ha' := h.active_of_mem ha
    rcases h.origin y hold with hs | ⟨z, hz, hez⟩ | ⟨a', ha'', b', hb', hc'⟩
    · exact hu.combine_fresh a x y ha' ⟨hgx, hx⟩ hc hs
    · exact hu.expand_ne_combine z a x y (h.inactive_of_mem hz) ha' ⟨hgx, hx⟩ hez hc
    · have hbx := (hu.combine_unique a' b' a x y (h.active_of_mem ha'')
        (h.inactive_of_mem hb') ha' ⟨hgx, hx⟩ hc' hc).2
      exact hnot.2 (hbx ▸ hb')

/-- The new items differ from each other. -/
theorem Consistent.process_nodup (hu : g.Unambiguous start)
    (h : g.Consistent start c (x :: pending)) (hp : g.process c x = .ok ys) : ys.Nodup := by
  have hgx := h.grown_head
  have hchart : c.active.Nodup ∧ c.inactive.Nodup := by
    have hitems : (c.active ++ c.inactive).Nodup := h.nodup.of_append_left
    exact ⟨hitems.of_append_left, hitems.of_append_right⟩
  cases hx : g.isActive x with
  | true =>
    refine nodup_collect (process_active hp hx) hchart.2 fun b hb b' hb' y hc hc' => ?_
    exact (hu.combine_unique x b x b' y ⟨hgx, hx⟩ (h.inactive_of_mem hb) ⟨hgx, hx⟩
      (h.inactive_of_mem hb') hc hc').2
  | false =>
    obtain ⟨es, cs, hes, hcs, rfl⟩ := process_inactive hp hx
    have hcsnd : cs.Nodup := by
      refine nodup_collect hcs hchart.1 fun a ha a' ha' y hc hc' => ?_
      exact (hu.combine_unique a x a' x y (h.active_of_mem ha) ⟨hgx, hx⟩
        (h.active_of_mem ha') ⟨hgx, hx⟩ hc hc').1
    refine (hu.expand_nodup x es ⟨hgx, hx⟩ hes).append hcsnd fun y hy hy' => ?_
    obtain ⟨a, ha, hc⟩ := (mem_collect hcs y).mp hy'
    exact hu.expand_ne_combine x a x y ⟨hgx, hx⟩ (h.active_of_mem ha) ⟨hgx, hx⟩
      ⟨es, hes, hy⟩ hc

theorem mem_items_add :
    y ∈ (c.add g x).items ++ (pending ++ ys) ↔ y ∈ c.items ++ x :: pending ∨ y ∈ ys := by
  have hy := (items_add_perm (g := g) c x).mem_iff (a := y)
  simp only [List.mem_append, hy, List.mem_cons]
  tauto

/-- One item keeps the state consistent. -/
theorem Consistent.process (hu : g.Unambiguous start)
    (h : g.Consistent start c (x :: pending)) (hp : g.process c x = .ok ys) :
    g.Consistent start (c.add g x) (pending ++ ys) := by
  have hgx := h.grown_head
  refine ⟨?_, ?_, ?_, ?_, ?_, ?_, ?_, ?_⟩
  · intro y hy
    rcases mem_active_add.mp hy with hy | ⟨rfl, hx⟩
    · exact h.isActive y hy
    · exact hx
  · intro y hy
    rcases mem_inactive_add.mp hy with hy | ⟨rfl, hx⟩
    · exact h.isInactive y hy
    · exact hx
  · have hperm : ((c.add g x).items ++ (pending ++ ys)).Perm
        ((c.items ++ x :: pending) ++ ys) := by
      have h1 := (items_add_perm (g := g) c x).append_right (pending ++ ys)
      have h2 : (x :: c.items ++ (pending ++ ys)).Perm (c.items ++ x :: (pending ++ ys)) :=
        List.perm_middle.symm
      simpa using h1.trans h2
    rw [hperm.nodup_iff]
    exact h.nodup.append (h.process_nodup hu hp) fun y hold hy =>
      h.process_new hu hp y hy hold
  · intro y hy
    rcases mem_items_add.mp hy with hy | hy
    · exact h.grown y hy
    · exact h.grown_process hp y hy
  · intro y hy
    exact mem_items_add.mpr (Or.inl (h.started y hy))
  · intro z hz
    rcases mem_inactive_add.mp hz with hz | ⟨rfl, hx⟩
    · obtain ⟨zs, hzs, hmem⟩ := h.expanded z hz
      exact ⟨zs, hzs, fun y hy => mem_items_add.mpr (Or.inl (hmem y hy))⟩
    · obtain ⟨es, cs, hes, -, rfl⟩ := process_inactive hp hx
      exact ⟨es, hes, fun y hy =>
        mem_items_add.mpr (Or.inr (List.mem_append_left _ hy))⟩
  · intro a ha' b hb'
    rcases mem_active_add.mp ha' with ha | ⟨rfl, hax⟩
    · rcases mem_inactive_add.mp hb' with hb | ⟨rfl, hbx⟩
      · obtain ⟨o, ho, hmem⟩ := h.combined a ha b hb
        exact ⟨o, ho, fun y hy => mem_items_add.mpr (Or.inl (hmem y hy))⟩
      · obtain ⟨es, cs, -, hcs, rfl⟩ := process_inactive hp hbx
        obtain ⟨o, ho⟩ := ok_of_collect hcs a ha
        refine ⟨o, ho, fun y hy => mem_items_add.mpr (Or.inr ?_)⟩
        rw [Option.mem_def.mp hy] at ho
        exact List.mem_append_right _ ((mem_collect hcs y).mpr ⟨a, ha, ho⟩)
    · rcases mem_inactive_add.mp hb' with hb | ⟨rfl, hbx⟩
      · have hcs := process_active hp hax
        obtain ⟨o, ho⟩ := ok_of_collect hcs b hb
        refine ⟨o, ho, fun y hy => mem_items_add.mpr (Or.inr ?_)⟩
        rw [Option.mem_def.mp hy] at ho
        exact (mem_collect hcs y).mpr ⟨b, hb, ho⟩
      · simp [hbx] at hax
  · intro y hy
    rcases mem_items_add.mp hy with hy | hy
    · rcases h.origin y hy with hs | ⟨z, hz, he⟩ | ⟨a, ha, b, hb, hc⟩
      · exact Or.inl hs
      · exact Or.inr (Or.inl ⟨z, mem_inactive_add.mpr (Or.inl hz), he⟩)
      · exact Or.inr (Or.inr ⟨a, mem_active_add.mpr (Or.inl ha), b,
          mem_inactive_add.mpr (Or.inl hb), hc⟩)
    · rcases (mem_process hp).mp hy with ⟨hx, he⟩ | ⟨hx, b, hb, hc⟩ | ⟨hx, a, ha, hc⟩
      · exact Or.inr (Or.inl ⟨x, mem_inactive_add.mpr (Or.inr ⟨rfl, hx⟩), he⟩)
      · exact Or.inr (Or.inr ⟨x, mem_active_add.mpr (Or.inr ⟨rfl, hx⟩), b,
          mem_inactive_add.mpr (Or.inl hb), hc⟩)
      · exact Or.inr (Or.inr ⟨a, mem_active_add.mpr (Or.inl ha), x,
          mem_inactive_add.mpr (Or.inr ⟨rfl, hx⟩), hc⟩)

/-- A failing call on a consistent state is a failure among the grown items. -/
theorem Consistent.fails {e : E} (h : g.Consistent start c (x :: pending))
    (hp : g.process c x = .error e) : g.Fails start := by
  have hgx := h.grown_head
  rcases calls_of_process_error hp with ⟨hx, he⟩ | ⟨hx, b, hb, he⟩ | ⟨hx, a, ha, he⟩
  · exact Or.inl ⟨x, e, ⟨hgx, hx⟩, he⟩
  · exact Or.inr ⟨x, b, e, ⟨hgx, hx⟩, h.inactive_of_mem hb, he⟩
  · exact Or.inr ⟨a, x, e, h.active_of_mem ha, ⟨hgx, hx⟩, he⟩

theorem consistent_start (hu : g.Unambiguous start) :
    g.Consistent start ⟨[], []⟩ start where
  isActive := by simp
  isInactive := by simp
  nodup := by simpa [Chart.items] using hu.start_nodup
  grown := by
    intro x hx
    exact Grown.start (by simpa [Chart.items] using hx)
  started := by simp [Chart.items]
  expanded := by simp
  combined := by simp
  origin := by
    intro y hy
    exact Or.inl (by simpa [Chart.items] using hy)

/-- With nothing pending the chart holds the grown items. -/
theorem Consistent.mem_of_grown (h : g.Consistent start c []) (hy : g.Grown start y) :
    y ∈ c.items := by
  have hkind : ∀ z ∈ c.items, if g.isActive z then z ∈ c.active else z ∈ c.inactive := by
    intro z hz
    rcases List.mem_append.mp hz with hz | hz
    · simpa [h.isActive z hz] using hz
    · simpa [h.isInactive z hz] using hz
  induction hy with
  | start hs => simpa using h.started _ hs
  | @expand x y _ hi he ih =>
    have hx : x ∈ c.inactive := by simpa [hi] using hkind x ih
    obtain ⟨ys, hys, hmem⟩ := h.expanded x hx
    obtain ⟨zs, hzs, hy⟩ := he
    rw [hys, Except.ok.injEq] at hzs
    simpa using hmem y (hzs ▸ hy)
  | @combine a b y _ _ hai hbi hc iha ihb =>
    have ha : a ∈ c.active := by simpa [hai] using hkind a iha
    have hb : b ∈ c.inactive := by simpa [hbi] using hkind b ihb
    obtain ⟨o, ho, hmem⟩ := h.combined a ha b hb
    have hoy : o = some y := by
      have hc' : g.combine a b = .ok (some y) := hc
      rw [ho, Except.ok.injEq] at hc'
      exact hc'
    simpa using hmem y (by simp [hoy])

/-! ### Batches and runs -/

/-- A batch keeps the state consistent, and fails only where a call on grown items does. -/
theorem Consistent.round (hu : g.Unambiguous start) {new agenda : List I}
    (h : g.Consistent start c (agenda ++ new)) :
    (∃ e, g.round new agenda c = .error e ∧ g.Fails start) ∨
      ∃ new' c', g.round new agenda c = .ok (new', c') ∧ g.Consistent start c' new' := by
  induction agenda generalizing new c with
  | nil => exact Or.inr ⟨new, c, rfl, h⟩
  | cons x agenda ih =>
    cases hp : g.process c x with
    | error e =>
      exact Or.inl ⟨e, by simp [Grower.round, hp, bind, Except.bind], h.fails hp⟩
    | ok ys =>
      have hnext : g.Consistent start (c.add g x) (agenda ++ (new ++ ys)) := by
        have h' : g.Consistent start c (x :: (agenda ++ new)) := h
        have hstep := h'.process hu hp
        rwa [List.append_assoc] at hstep
      simpa [Grower.round, hp, bind, Except.bind] using ih hnext

/-- What a weight must do for the procedure to stop. -/
structure Bounded (g : Grower I E) (start : List I) (weight : I → ℕ) (bound : ℕ) : Prop where
  expand : ∀ x y, g.Inactive start x → g.Expands x y → weight x < weight y
  combine : ∀ a b y, g.Active start a → g.Inactive start b → g.Combines a b y →
    weight a < weight y ∧ weight b < weight y
  le : ∀ x, g.Grown start x → weight x ≤ bound

variable {weight : I → ℕ} {bound : ℕ}

/-- What comes out of a batch is heavier than the batch: each new item has an origin in it. -/
theorem Consistent.lt_weight_of_round (hu : g.Unambiguous start)
    (hw : g.Bounded start weight bound) {k : ℕ} {new agenda new' : List I} {c' : Chart I}
    (h : g.Consistent start c (agenda ++ new)) (hk : ∀ x ∈ agenda, k ≤ weight x)
    (hnew : ∀ x ∈ new, k < weight x) (hr : g.round new agenda c = .ok (new', c')) :
    ∀ x ∈ new', k < weight x := by
  induction agenda generalizing new c with
  | nil =>
    simp only [Grower.round, Except.ok.injEq, Prod.mk.injEq] at hr
    exact hr.1 ▸ hnew
  | cons x agenda ih =>
    cases hp : g.process c x with
    | error e => simp [Grower.round, hp, bind, Except.bind] at hr
    | ok ys =>
      simp only [Grower.round, hp, bind, Except.bind] at hr
      have hnext : g.Consistent start (c.add g x) (agenda ++ (new ++ ys)) := by
        have h' : g.Consistent start c (x :: (agenda ++ new)) := h
        have hstep := h'.process hu hp
        rwa [List.append_assoc] at hstep
      have hkx : k ≤ weight x := hk x List.mem_cons_self
      have h' : g.Consistent start c (x :: (agenda ++ new)) := h
      have hgx : g.Grown start x := h'.grown_head
      refine ih hnext (fun y hy => hk y (List.mem_cons_of_mem _ hy)) (fun y hy => ?_) hr
      rcases List.mem_append.mp hy with hy | hy
      · exact hnew y hy
      · rcases (mem_process hp).mp hy with ⟨hx, he⟩ | ⟨hx, b, hb, hc⟩ | ⟨hx, a, ha, hc⟩
        · exact Nat.lt_of_le_of_lt hkx (hw.expand x y ⟨hgx, hx⟩ he)
        · exact Nat.lt_of_le_of_lt hkx
            (hw.combine x b y ⟨hgx, hx⟩ (h.inactive_of_mem hb) hc).1
        · exact Nat.lt_of_le_of_lt hkx
            (hw.combine a x y (h.active_of_mem ha) ⟨hgx, hx⟩ hc).2

/-- How a run ends: in a failure among the grown items, or with all of them, once each. -/
def Ends (g : Grower I E) (start : List I) : Except E (Chart I) → Prop
  | .error _ => g.Fails start
  | .ok c => ¬ g.Fails start ∧ c.items.Nodup ∧ (∀ x, x ∈ c.active ↔ g.Active start x) ∧
      ∀ x, x ∈ c.inactive ↔ g.Inactive start x

theorem Consistent.ends (h : g.Consistent start c []) : g.Ends start (.ok c) := by
  have hactive : ∀ x, x ∈ c.active ↔ g.Active start x := by
    intro x
    refine ⟨h.active_of_mem, fun hx => ?_⟩
    rcases List.mem_append.mp (h.mem_of_grown hx.1) with hc | hc
    · exact hc
    · have hxi := h.isInactive x hc
      rw [hx.2] at hxi
      cases hxi
  have hinactive : ∀ x, x ∈ c.inactive ↔ g.Inactive start x := by
    intro x
    refine ⟨h.inactive_of_mem, fun hx => ?_⟩
    rcases List.mem_append.mp (h.mem_of_grown hx.1) with hc | hc
    · have hxa := h.isActive x hc
      rw [hx.2] at hxa
      cases hxa
    · exact hc
  refine ⟨?_, by simpa using h.nodup, hactive, hinactive⟩
  rintro (⟨x, e, hx, he⟩ | ⟨a, b, e, ha, hb, he⟩)
  · obtain ⟨ys, hys, -⟩ := h.expanded x ((hinactive x).mpr hx)
    simp [hys] at he
  · obtain ⟨o, ho, -⟩ := h.combined a ((hactive a).mpr ha) b ((hinactive b).mpr hb)
    simp [ho] at he

/-- From a consistent state, one batch for each weight that is left. -/
theorem Consistent.run (hu : g.Unambiguous start) (hw : g.Bounded start weight bound)
    {agenda : List I} {k left : ℕ} (h : g.Consistent start c agenda)
    (hk : ∀ x ∈ agenda, k ≤ weight x) (hleft : bound < k + left) :
    ∃ r, g.Ends start r ∧ ∀ fuel, left < fuel → g.run fuel agenda c = some r := by
  induction left generalizing k agenda c with
  | zero =>
    have hnil : agenda = [] := by
      refine List.eq_nil_iff_forall_not_mem.mpr fun x hx => ?_
      have h1 := hk x hx
      have h2 := hw.le x (h.grown x (List.mem_append_right _ hx))
      omega
    subst hnil
    refine ⟨.ok c, h.ends, fun fuel hfuel => ?_⟩
    obtain ⟨fuel, rfl⟩ := Nat.exists_eq_succ_of_ne_zero (Nat.pos_iff_ne_zero.mp hfuel)
    rfl
  | succ left ih =>
    have h' : g.Consistent start c (agenda ++ []) := by simpa using h
    rcases Consistent.round hu h' with ⟨e, hr, hf⟩ | ⟨new, c', hr, hc'⟩
    · refine ⟨.error e, hf, fun fuel hfuel => ?_⟩
      obtain ⟨fuel, rfl⟩ := Nat.exists_eq_succ_of_ne_zero (Nat.ne_zero_of_lt hfuel)
      simp [Grower.run, hr]
    · cases new with
      | nil =>
        refine ⟨.ok c', hc'.ends, fun fuel hfuel => ?_⟩
        obtain ⟨fuel, rfl⟩ := Nat.exists_eq_succ_of_ne_zero (Nat.ne_zero_of_lt hfuel)
        simp [Grower.run, hr]
      | cons y ys =>
        have hlt : ∀ x ∈ y :: ys, k + 1 ≤ weight x :=
          Consistent.lt_weight_of_round hu hw h' hk (by simp) hr
        obtain ⟨r, hends, hrun⟩ := ih hc' hlt (by omega)
        refine ⟨r, hends, fun fuel hfuel => ?_⟩
        obtain ⟨fuel, rfl⟩ := Nat.exists_eq_succ_of_ne_zero (Nat.ne_zero_of_lt hfuel)
        simp only [Grower.run, hr]
        exact hrun fuel (by omega)

/-- With fuel for one batch a weight the run ends, and it does not depend on the rest. -/
theorem run_result (hu : g.Unambiguous start) (hw : g.Bounded start weight bound) :
    ∃ r, g.Ends start r ∧ ∀ fuel, bound + 1 < fuel → g.run fuel start ⟨[], []⟩ = some r :=
  (consistent_start hu).run hu hw (fun _ _ => Nat.zero_le _)
    (show bound < 0 + (bound + 1) by omega)

/-- More fuel does not change how a run ends. -/
theorem run_succ {fuel : ℕ} {agenda : List I} {r : Except E (Chart I)}
    (h : g.run fuel agenda c = some r) : g.run (fuel + 1) agenda c = some r := by
  induction fuel generalizing agenda c with
  | zero => cases h
  | succ fuel ih =>
    rw [Grower.run] at h ⊢
    cases hr : g.round [] agenda c with
    | error e =>
      rw [hr] at h
      exact h
    | ok p =>
      obtain ⟨new, c'⟩ := p
      rw [hr] at h
      cases new with
      | nil => exact h
      | cons y ys => exact ih h

theorem run_of_le {fuel fuel' : ℕ} (hle : fuel ≤ fuel') {agenda : List I}
    {r : Except E (Chart I)} (h : g.run fuel agenda c = some r) :
    g.run fuel' agenda c = some r := by
  induction hle with
  | refl => exact h
  | step _ ih => exact run_succ ih

/-! ### Growers that mirror each other -/

/-- The items of one grower can be read as items of the other, call by call. -/
structure Mirrors (h : Grower J E) (g : Grower I E) (f : I → J) : Prop where
  isActive : ∀ x, h.isActive (f x) = g.isActive x
  expand : ∀ x, h.expand (f x) = (g.expand x).map (List.map f)
  combine : ∀ a b, h.combine (f a) (f b) = (g.combine a b).map (Option.map f)

namespace Mirrors

variable {h : Grower J E} {f : I → J}

theorem add (m : Mirrors h g f) (c : Chart I) (x : I) :
    (c.map f).add h (f x) = (c.add g x).map f := by
  simp only [Chart.add, m.isActive]
  split <;> simp [Chart.map]

theorem expansions (m : Mirrors h g f) (x : I) :
    h.expansions (f x) = (g.expansions x).map (List.map f) := by
  simp only [Grower.expansions, m.isActive]
  split
  · rfl
  · exact m.expand x

theorem combineWith (m : Mirrors h g f) (c : Chart I) (x : I) :
    h.combineWith (c.map f) (f x) = (g.combineWith c x).map (List.map f) := by
  simp only [Grower.combineWith, m.isActive]
  split
  · simp only [Chart.map, collect_map, m.combine, collect_map_result]
  · simp only [Chart.map, collect_map, m.combine, collect_map_result]

theorem process (m : Mirrors h g f) (c : Chart I) (x : I) :
    h.process (c.map f) (f x) = (g.process c x).map (List.map f) := by
  simp only [Grower.process, m.expansions, m.combineWith]
  cases g.expansions x with
  | error e => rfl
  | ok es =>
    cases g.combineWith c x with
    | error e => rfl
    | ok cs => exact congrArg Except.ok (List.map_append ..).symm

theorem round (m : Mirrors h g f) (new agenda : List I) (c : Chart I) :
    h.round (new.map f) (agenda.map f) (c.map f) =
      (g.round new agenda c).map (Prod.map (List.map f) (Chart.map f)) := by
  induction agenda generalizing new c with
  | nil => rfl
  | cons x agenda ih =>
    simp only [List.map_cons, Grower.round, m.process]
    cases g.process c x with
    | error e => rfl
    | ok ys =>
      have hnext := ih (new ++ ys) (c.add g x)
      rw [List.map_append, ← m.add] at hnext
      exact hnext

/-- The runs of the two growers mirror each other as well. -/
theorem run (m : Mirrors h g f) (fuel : ℕ) (agenda : List I) (c : Chart I) :
    h.run fuel (agenda.map f) (c.map f) =
      (g.run fuel agenda c).map (Except.map (Chart.map f)) := by
  induction fuel generalizing agenda c with
  | zero => rfl
  | succ fuel ih =>
    have hround := m.round [] agenda c
    simp only [List.map_nil] at hround
    simp only [Grower.run, hround]
    cases g.round [] agenda c with
    | error e => rfl
    | ok r =>
      obtain ⟨new, c'⟩ := r
      cases new with
      | nil => rfl
      | cons y ys => exact ih (y :: ys) c'

end Mirrors

end Grower

end Qvd.AgendaChart
