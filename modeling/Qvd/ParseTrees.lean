import Mathlib.Data.Finset.Powerset
import Mathlib.Data.Finset.Prod
import Mathlib.Logic.Relation
import Qvd.AcyclicRelation
import Qvd.ChartParser

/-!
What the parser is for: the derivations of a token list.
A tree names the productions it uses by their place in the grammar and the tokens by their
place in the list. Its analysis matches the daughters of every production from left to right
with the unifier of the parser.
-/
namespace Qvd.ParseTrees

open Qvd.AcyclicRelation Qvd.ChartParser Relation

/-- A token under one of its labels, or a production over its daughters. -/
inductive Tree
  | word (token label : ℕ)
  | phrase (rule : ℕ) (daughters : List Tree)

/-- What a tree stands for: a constituent, or a callback that died on the way. -/
structure Analysis (M : Type) where
  label : Label
  substitution : Substitution
  meaning : Except String (Option M)

variable {M R : Type}

/-- A callback runs once all its arguments are there. -/
def applyCallback (callback : List (Option M) → Except String (Option M))
    (arguments : Except String (List (Option M))) : Except String (Option M) :=
  arguments.bind callback

def consMeaning (m : Except String (Option M)) (ms : Except String (List (Option M))) :
    Except String (List (Option M)) :=
  m.bind fun v => ms.map (v :: ·)

mutual

def Tree.analyse (g : Grammar M R) (forms : List String) : Tree → Option (Analysis M)
  | .word token label => do
    let form ← forms[token]?
    let l ← (g.labelsForString form)[label]?
    return ⟨l, Substitution.new, .ok (g.meaningForString form)⟩
  | .phrase rule daughters => do
    let r ← g.rules[rule]?
    let (substitution, ms) ← analyseAll g forms r.rightSide daughters Substitution.new
    return ⟨r.leftSide, substitution, applyCallback r.meaning ms⟩

/-- The daughters against the labels of the right side, the substitution going along. -/
def analyseAll (g : Grammar M R) (forms : List String) :
    List Label → List Tree → Substitution →
      Option (Substitution × Except String (List (Option M)))
  | [], [], substitution => some (substitution, .ok [])
  | first :: rest, d :: ds, substitution => do
    let a ← d.analyse g forms
    let extended ← unify first a.label substitution a.substitution
    let (last, ms) ← analyseAll g forms rest ds extended
    return (last, consMeaning a.meaning ms)
  | _, _, _ => none

end

mutual

/-- The tokens of a tree, from left to right. -/
def Tree.yield : Tree → List ℕ
  | .word token _ => [token]
  | .phrase _ daughters => yieldAll daughters

def yieldAll : List Tree → List ℕ
  | [] => []
  | d :: ds => d.yield ++ yieldAll ds

end

/-- The tree covers some consecutive tokens. -/
def Tree.Spans (t : Tree) (first count : ℕ) : Prop :=
  t.yield = List.range' first count

/-- One unary production over another, with the substitutions of the two constituents. -/
def UnaryStep (g : Grammar M R) (c d : ℕ × Substitution) : Prop :=
  ∃ q r first, g.rules[c.1]? = some q ∧ g.rules[d.1]? = some r ∧ r.rightSide = [first] ∧
    unify first q.leftSide Substitution.new c.2 = some d.2

/-- The grammars that the parser is for: every production has a daughter, and no chain of
unary productions comes back to the constituent it has started from. -/
structure Accepted (g : Grammar M R) : Prop where
  daughters : ∀ r ∈ g.rules, r.rightSide ≠ []
  acyclic : Acyclic (UnaryStep g)

/-- A derivation of the whole token list from the start symbol. -/
def IsDerivation (g : Grammar M R) (forms : List String) (t : Tree) : Prop :=
  t.Spans 0 forms.length ∧ ∃ a, t.analyse g forms = some a ∧
    (unify g.root a.label Substitution.new a.substitution).isSome

/-- The entry that stands for a derivation in the answer. -/
def Entry (g : Grammar M R) (forms : List String) (t : Tree) (r : R) : Prop :=
  ∃ a, t.analyse g forms = some a ∧ a.meaning.bind g.response = .ok r

/-- A callback dies on some constituent, or a derivation has a meaning that the wrapper does
not take. -/
def Dies (g : Grammar M R) (forms : List String) : Prop :=
  (∃ (t : Tree) (first count : ℕ) (a : Analysis M) (e : String),
    t.Spans first count ∧ t.analyse g forms = some a ∧ a.meaning = .error e) ∨
  ∃ (t : Tree) (a : Analysis M) (e : String), IsDerivation g forms t ∧ t.analyse g forms = some a ∧
    a.meaning.bind g.response = .error e

/-- The parser terminates and returns one entry for each derivation, and no other. -/
def ReturnsAll (g : Grammar M R) (forms : List String) : Prop :=
  ∃ answer derivations, (∃ N, ∀ fuel, N < fuel →
      parse fuel g (tokens forms) = some (.ok answer)) ∧
    derivations.Nodup ∧ (∀ t, t ∈ derivations ↔ IsDerivation g forms t) ∧
    List.Forall₂ (Entry g forms) derivations answer

/-- The parser dies. -/
def ParserDies (g : Grammar M R) (forms : List String) : Prop :=
  ∃ e N, ∀ fuel, N < fuel → parse fuel g (tokens forms) = some (.error e)

/-! ### Trees -/

/-- Induction over trees: a phrase from its daughters. -/
theorem Tree.induct {P : Tree → Prop} (word : ∀ token label, P (.word token label))
    (phrase : ∀ rule ds, (∀ d ∈ ds, P d) → P (.phrase rule ds)) : ∀ t, P t
  | .word token label => word token label
  | .phrase rule ds => phrase rule ds fun d _hd => Tree.induct word phrase d
decreasing_by
  have := List.sizeOf_lt_of_mem _hd
  simp only [Tree.phrase.sizeOf_spec]
  omega

@[simp] theorem yield_word (k l : ℕ) : (Tree.word k l).yield = [k] := by
  rw [Tree.yield]

@[simp] theorem yield_phrase (i : ℕ) (ds : List Tree) :
    (Tree.phrase i ds).yield = yieldAll ds := by
  rw [Tree.yield]

@[simp] theorem yieldAll_nil : yieldAll [] = [] := by
  rw [yieldAll]

@[simp] theorem yieldAll_cons (d : Tree) (ds : List Tree) :
    yieldAll (d :: ds) = d.yield ++ yieldAll ds := by
  rw [yieldAll]

theorem mem_yieldAll {k : ℕ} {ds : List Tree} :
    k ∈ yieldAll ds ↔ ∃ d ∈ ds, k ∈ d.yield := by
  induction ds with
  | nil => simp
  | cons d ds ih => simp [ih]

theorem yieldAll_append (ds es : List Tree) :
    yieldAll (ds ++ es) = yieldAll ds ++ yieldAll es := by
  induction ds with
  | nil => simp
  | cons d ds ih => simp [ih]

/-! ### Analyses -/

section Analyse

variable {g : Grammar M R} {forms : List String}

theorem analyse_word {k l : ℕ} {a : Analysis M} :
    (Tree.word k l).analyse g forms = some a ↔
      ∃ form label, forms[k]? = some form ∧ (g.labelsForString form)[l]? = some label ∧
        a = ⟨label, Substitution.new, .ok (g.meaningForString form)⟩ := by
  rw [Tree.analyse]
  simp only [Option.bind_eq_bind, Option.bind_eq_some_iff, Option.pure_def, Option.some.injEq]
  constructor
  · rintro ⟨form, hf, label, hl, rfl⟩
    exact ⟨form, label, hf, hl, rfl⟩
  · rintro ⟨form, label, hf, hl, rfl⟩
    exact ⟨form, hf, label, hl, rfl⟩

theorem analyse_phrase {i : ℕ} {ds : List Tree} {a : Analysis M} :
    (Tree.phrase i ds).analyse g forms = some a ↔
      ∃ r σ ms, g.rules[i]? = some r ∧
        analyseAll g forms r.rightSide ds Substitution.new = some (σ, ms) ∧
        a = ⟨r.leftSide, σ, applyCallback r.meaning ms⟩ := by
  rw [Tree.analyse]
  simp only [Option.bind_eq_bind, Option.bind_eq_some_iff, Option.pure_def, Option.some.injEq,
    Prod.exists]
  constructor
  · rintro ⟨r, hr, σ, ms, hall, rfl⟩
    exact ⟨r, σ, ms, hr, hall, rfl⟩
  · rintro ⟨r, σ, ms, hr, hall, rfl⟩
    exact ⟨r, hr, σ, ms, hall, rfl⟩

@[simp] theorem analyseAll_nil (σ : Substitution) :
    analyseAll g forms [] [] σ = some (σ, .ok []) := by
  rw [analyseAll]

theorem analyseAll_cons {f : Label} {fs : List Label} {d : Tree} {ds : List Tree}
    {σ τ : Substitution} {ms : Except String (List (Option M))} :
    analyseAll g forms (f :: fs) (d :: ds) σ = some (τ, ms) ↔
      ∃ a σ' ms', d.analyse g forms = some a ∧
        unify f a.label σ a.substitution = some σ' ∧
        analyseAll g forms fs ds σ' = some (τ, ms') ∧ ms = consMeaning a.meaning ms' := by
  rw [analyseAll]
  simp only [Option.bind_eq_bind, Option.bind_eq_some_iff, Option.pure_def, Option.some.injEq,
    Prod.exists, Prod.mk.injEq]
  constructor
  · rintro ⟨a, ha, σ', hu, τ', ms', hall, rfl, rfl⟩
    exact ⟨a, σ', ms', ha, hu, hall, rfl⟩
  · rintro ⟨a, σ', ms', ha, hu, hall, rfl⟩
    exact ⟨a, ha, σ', hu, τ, ms', hall, rfl, rfl⟩

theorem analyseAll_length {fs : List Label} {ds : List Tree} {σ : Substitution}
    {p : Substitution × Except String (List (Option M))}
    (h : analyseAll g forms fs ds σ = some p) : fs.length = ds.length := by
  induction fs generalizing ds σ p with
  | nil =>
    cases ds with
    | nil => rfl
    | cons d ds => simp [analyseAll] at h
  | cons f fs ih =>
    cases ds with
    | nil => simp [analyseAll] at h
    | cons d ds =>
      obtain ⟨a, σ', ms', -, -, hall, -⟩ := analyseAll_cons.mp h
      simp [ih hall]

theorem analyse_of_analyseAll {fs : List Label} {ds : List Tree} {σ τ : Substitution}
    {ms : Except String (List (Option M))} (h : analyseAll g forms fs ds σ = some (τ, ms)) :
    ∀ d ∈ ds, ∃ b, d.analyse g forms = some b := by
  induction fs generalizing ds σ ms with
  | nil =>
    obtain rfl : ds = [] := List.length_eq_zero_iff.mp (analyseAll_length h).symm
    simp
  | cons f fs ih =>
    cases ds with
    | nil => simp [analyseAll] at h
    | cons d ds =>
      obtain ⟨b, σ', ms', hb, -, hall, -⟩ := analyseAll_cons.mp h
      exact List.forall_mem_cons.mpr ⟨⟨b, hb⟩, ih hall⟩

/-- The arguments of a callback are the meanings of the daughters. -/
theorem meaning_of_mem_arguments {fs : List Label} {ds : List Tree} {σ τ : Substitution}
    {vs : List (Option M)} (h : analyseAll g forms fs ds σ = some (τ, .ok vs)) :
    ∀ v ∈ vs, ∃ d ∈ ds, ∃ b, d.analyse g forms = some b ∧ b.meaning = .ok v := by
  induction fs generalizing ds σ vs with
  | nil =>
    obtain rfl : ds = [] := List.length_eq_zero_iff.mp (analyseAll_length h).symm
    simp only [analyseAll_nil, Option.some.injEq, Prod.mk.injEq, Except.ok.injEq] at h
    simp [← h.2]
  | cons f fs ih =>
    cases ds with
    | nil => simp [analyseAll] at h
    | cons d ds =>
      obtain ⟨b, σ', ms', hb, -, hall, hms⟩ := analyseAll_cons.mp h
      cases hbm : b.meaning with
      | error e => simp [hbm, consMeaning, Except.bind] at hms
      | ok w =>
        cases ms' with
        | error e => simp [hbm, consMeaning, Except.bind, Except.map] at hms
        | ok ws =>
          simp only [hbm, consMeaning, Except.bind, Except.map, Except.ok.injEq] at hms
          rw [hms, List.forall_mem_cons]
          refine ⟨⟨d, List.mem_cons_self, b, hb, hbm⟩, fun v hv => ?_⟩
          obtain ⟨e, he, hmeaning⟩ := ih hall v hv
          exact ⟨e, List.mem_cons_of_mem _ he, hmeaning⟩

/-- A callback is called if none of the daughters has died. -/
theorem ok_of_analyseAll {fs : List Label} {ds : List Tree} {σ τ : Substitution}
    {ms : Except String (List (Option M))} (h : analyseAll g forms fs ds σ = some (τ, ms))
    (hds : ∀ d ∈ ds, ∀ b, d.analyse g forms = some b → ∃ v, b.meaning = .ok v) :
    ∃ vs, ms = .ok vs := by
  induction fs generalizing ds σ ms with
  | nil =>
    obtain rfl : ds = [] := List.length_eq_zero_iff.mp (analyseAll_length h).symm
    simp only [analyseAll_nil, Option.some.injEq, Prod.mk.injEq] at h
    exact ⟨[], h.2.symm⟩
  | cons f fs ih =>
    cases ds with
    | nil => simp [analyseAll] at h
    | cons d ds =>
      obtain ⟨b, σ', ms', hb, -, hall, rfl⟩ := analyseAll_cons.mp h
      rw [List.forall_mem_cons] at hds
      obtain ⟨v, hv⟩ := hds.1 b hb
      obtain ⟨vs, rfl⟩ := ih hall hds.2
      exact ⟨v :: vs, by rw [hv]; rfl⟩

/-- One more daughter on the right. -/
theorem analyseAll_snoc {f : Label} {fs : List Label} {d : Tree} {ds : List Tree}
    {σ τ τ' : Substitution} {vs : List (Option M)} {a : Analysis M} {v : Option M}
    (h : analyseAll g forms fs ds σ = some (τ, .ok vs)) (ha : d.analyse g forms = some a)
    (hv : a.meaning = .ok v) (hu : unify f a.label τ a.substitution = some τ') :
    analyseAll g forms (fs ++ [f]) (ds ++ [d]) σ = some (τ', .ok (vs ++ [v])) := by
  induction fs generalizing ds σ vs with
  | nil =>
    obtain rfl : ds = [] := List.length_eq_zero_iff.mp (analyseAll_length h).symm
    simp only [analyseAll_nil, Option.some.injEq, Prod.mk.injEq, Except.ok.injEq] at h
    obtain ⟨rfl, rfl⟩ := h
    exact analyseAll_cons.mpr ⟨a, τ', .ok [], ha, hu, by simp, by rw [hv]; rfl⟩
  | cons f' fs ih =>
    cases ds with
    | nil => simp [analyseAll] at h
    | cons d' ds =>
      obtain ⟨b, σ', ms', hb, hub, hall, hms⟩ := analyseAll_cons.mp h
      cases hbm : b.meaning with
      | error e => simp [hbm, consMeaning, Except.bind] at hms
      | ok w =>
        cases ms' with
        | error e => simp [hbm, consMeaning, Except.bind, Except.map] at hms
        | ok ws =>
          simp only [hbm, consMeaning, Except.bind, Except.map, Except.ok.injEq] at hms
          refine analyseAll_cons.mpr ⟨b, σ', .ok (ws ++ [v]), hb, hub, ih hall, ?_⟩
          rw [hbm, hms]
          rfl

end Analyse

/-! ### The strings of a substitution -/

/-- Variables and values are among the strings given. -/
def Over (K : Finset String) (σ : Substitution) : Prop :=
  ∀ k v, σ.items k = some v → k ∈ K ∧ v ∈ K

def values (l : Label) : List String := l.map Prod.snd

/-- The strings of a grammar and of the labels of some forms. -/
def strings (g : Grammar M R) (forms : List String) : Finset String :=
  ((g.rules.flatMap fun r => r.leftSide :: r.rightSide) ++
    forms.flatMap g.labelsForString).flatMap values |>.toFinset

section Strings

variable {K : Finset String} {g : Grammar M R} {forms : List String}

theorem over_new : Over K Substitution.new := by
  intro k v h
  cases h

theorem Over.subst_mem {σ : Substitution} (h : Over K σ) {v : String} (hv : v ∈ K) :
    σ.subst v ∈ K := by
  unfold Substitution.subst
  cases hi : σ.items v with
  | none => exact hv
  | some w => exact (h v w hi).2

theorem Over.set {σ : Substitution} (h : Over K σ) {k v : String} (hk : k ∈ K) (hv : v ∈ K) :
    Over K (σ.set k v) := by
  intro x w hx
  simp only [Substitution.set] at hx
  split at hx
  · rename_i hxk
    simp only [Option.some.injEq] at hx
    exact ⟨hxk ▸ hk, hx ▸ hv⟩
  · exact h x w hx

theorem lookup_mem_values {l : Label} {k v : String} (h : l.lookup k = some v) :
    v ∈ values l := by
  obtain ⟨l₁, l₂, rfl, -⟩ := List.lookup_eq_some_iff.mp h
  simp [values]

/-- The unifier makes no new strings. -/
theorem over_unifyPairs {source target : Label} {tSubst sSubst σ τ : Substitution}
    (hs : ∀ v ∈ values source, v ∈ K) (ht : ∀ v ∈ values target, v ∈ K)
    (hts : Over K tSubst) (hss : Over K sSubst) (hσ : Over K σ)
    (h : unifyPairs source tSubst sSubst target σ = some τ) : Over K τ := by
  induction target generalizing σ with
  | nil =>
    simp only [unifyPairs, Option.some.injEq] at h
    exact h ▸ hσ
  | cons p target ih =>
    obtain ⟨key, tValue⟩ := p
    have htail : ∀ v ∈ values target, v ∈ K :=
      fun v hv => ht v (List.mem_cons_of_mem _ hv)
    have hhead : tSubst.subst tValue ∈ K := hts.subst_mem (ht tValue List.mem_cons_self)
    unfold unifyPairs at h
    cases hl : source.lookup key with
    | none =>
      rw [hl] at h
      exact ih htail hσ h
    | some sValue =>
      rw [hl] at h
      dsimp only at h
      have hsv : sSubst.subst sValue ∈ K := hss.subst_mem (hs sValue (lookup_mem_values hl))
      split at h
      · exact ih htail hσ h
      · split at h
        · exact ih htail (hσ.set hhead hsv) h
        · split at h
          · cases h
          · exact ih htail hσ h

theorem over_unify {source target : Label} {tSubst sSubst τ : Substitution}
    (hs : ∀ v ∈ values source, v ∈ K) (ht : ∀ v ∈ values target, v ∈ K)
    (hts : Over K tSubst) (hss : Over K sSubst)
    (h : unify target source tSubst sSubst = some τ) : Over K τ :=
  over_unifyPairs hs ht hts hss hts h

theorem mem_strings_of_rule {i : ℕ} {r : Rule M} (hr : g.rules[i]? = some r) {l : Label}
    (hl : l ∈ r.leftSide :: r.rightSide) : ∀ v ∈ values l, v ∈ strings g forms := by
  intro v hv
  simp only [strings, List.mem_toFinset, List.mem_flatMap, List.mem_append]
  exact ⟨l, Or.inl ⟨r, List.mem_of_getElem? hr, hl⟩, hv⟩

theorem mem_strings_of_form {k : ℕ} {form : String} (hf : forms[k]? = some form) {l : Label}
    (hl : l ∈ g.labelsForString form) : ∀ v ∈ values l, v ∈ strings g forms := by
  intro v hv
  simp only [strings, List.mem_toFinset, List.mem_flatMap, List.mem_append]
  exact ⟨l, Or.inr ⟨form, List.mem_of_getElem? hf, hl⟩, hv⟩

theorem over_analyseAll {fs : List Label} {ds : List Tree} {σ τ : Substitution}
    {ms : Except String (List (Option M))} (hfs : ∀ f ∈ fs, ∀ v ∈ values f, v ∈ K)
    (hσ : Over K σ) (hds : ∀ d ∈ ds, ∀ a, d.analyse g forms = some a →
      (∀ v ∈ values a.label, v ∈ K) ∧ Over K a.substitution)
    (h : analyseAll g forms fs ds σ = some (τ, ms)) : Over K τ := by
  induction fs generalizing ds σ ms with
  | nil =>
    obtain rfl : ds = [] := List.length_eq_zero_iff.mp (analyseAll_length h).symm
    simp only [analyseAll_nil, Option.some.injEq, Prod.mk.injEq] at h
    exact h.1 ▸ hσ
  | cons f fs ih =>
    cases ds with
    | nil => simp [analyseAll] at h
    | cons d ds =>
      obtain ⟨a, σ', ms', ha, hu, hall, -⟩ := analyseAll_cons.mp h
      obtain ⟨hlabel, hsubst⟩ := hds d List.mem_cons_self a ha
      have hσ' : Over K σ' := over_unify hlabel (hfs f List.mem_cons_self) hσ hsubst hu
      exact ih (fun f' hf' => hfs f' (List.mem_cons_of_mem _ hf')) hσ'
        (fun d' hd' => hds d' (List.mem_cons_of_mem _ hd')) hall

/-- A constituent has only strings of the grammar and of the tokens. -/
theorem over_analyse (t : Tree) : ∀ a, t.analyse g forms = some a →
    (∀ v ∈ values a.label, v ∈ strings g forms) ∧ Over (strings g forms) a.substitution := by
  induction t using Tree.induct with
  | word k l =>
    intro a ha
    obtain ⟨form, label, hform, hlabel, rfl⟩ := analyse_word.mp ha
    exact ⟨mem_strings_of_form hform (List.mem_of_getElem? hlabel), over_new⟩
  | phrase i ds ih =>
    intro a ha
    obtain ⟨r, σ, ms, hr, hall, rfl⟩ := analyse_phrase.mp ha
    refine ⟨mem_strings_of_rule hr List.mem_cons_self, over_analyseAll ?_ over_new ih hall⟩
    exact fun f hf => mem_strings_of_rule hr (List.mem_cons_of_mem _ hf)

end Strings

/-! ### Chains of unary productions -/

/-- The constituents of the unary productions at the top of a tree. -/
def unaryChain (g : Grammar M R) (forms : List String) : Tree → List (ℕ × Substitution)
  | .phrase i [d] =>
    (i, (((Tree.phrase i [d]).analyse g forms).map Analysis.substitution).getD
      Substitution.new) :: unaryChain g forms d
  | _ => []

section Unary

variable {g : Grammar M R} {forms : List String}

theorem unaryChain_phrase {i : ℕ} {d : Tree} {a : Analysis M}
    (h : (Tree.phrase i [d]).analyse g forms = some a) :
    unaryChain g forms (.phrase i [d]) = (i, a.substitution) :: unaryChain g forms d := by
  rw [unaryChain, h]
  rfl

/-- The daughter of a unary phrase, and the match that has made the phrase. -/
theorem unary_daughter {i : ℕ} {d : Tree} {a : Analysis M}
    (h : (Tree.phrase i [d]).analyse g forms = some a) :
    ∃ r first b, g.rules[i]? = some r ∧ r.rightSide = [first] ∧ d.analyse g forms = some b ∧
      unify first b.label Substitution.new b.substitution = some a.substitution := by
  obtain ⟨r, σ, ms, hr, hall, rfl⟩ := analyse_phrase.mp h
  obtain ⟨first, hfirst⟩ := List.length_eq_one_iff.mp (analyseAll_length hall)
  rw [hfirst] at hall
  obtain ⟨b, σ', ms', hb, hu, hnil, -⟩ := analyseAll_cons.mp hall
  simp only [analyseAll_nil, Option.some.injEq, Prod.mk.injEq] at hnil
  exact ⟨r, first, b, hr, hfirst, hb, hnil.1 ▸ hu⟩

/-- The constituents below a unary one lead up to it. -/
theorem unary_leads {i : ℕ} {d : Tree} {a : Analysis M}
    (h : (Tree.phrase i [d]).analyse g forms = some a) :
    ∀ c ∈ unaryChain g forms d, TransGen (UnaryStep g) c (i, a.substitution) := by
  induction d using unaryChain.induct generalizing i a with
  | case1 k d ih =>
    obtain ⟨r, first, b, hr, hfirst, hb, hu⟩ := unary_daughter h
    obtain ⟨q, τ, ms, hq, -, hbeq⟩ := analyse_phrase.mp hb
    have hstep : UnaryStep g (k, b.substitution) (i, a.substitution) := by
      refine ⟨q, r, first, hq, hr, hfirst, ?_⟩
      rw [hbeq] at hu ⊢
      exact hu
    intro c hc
    rw [unaryChain_phrase hb, List.mem_cons] at hc
    rcases hc with rfl | hc
    · exact TransGen.single hstep
    · exact (ih hb c hc).tail hstep
  | case2 d hd =>
    intro c hc
    rw [unaryChain] at hc
    · cases hc
    · exact hd

/-- In an accepted grammar a chain meets every constituent once. -/
theorem unaryChain_nodup (hg : Accepted g) {t : Tree} {a : Analysis M}
    (h : t.analyse g forms = some a) : (unaryChain g forms t).Nodup := by
  induction t using unaryChain.induct generalizing a with
  | case1 k d ih =>
    have hleads := unary_leads h
    obtain ⟨r, first, b, hr, hfirst, hb, hu⟩ := unary_daughter h
    rw [unaryChain_phrase h, List.nodup_cons]
    exact ⟨fun hk => hg.acyclic _ (hleads _ hk), ih hb⟩
  | case2 d hd =>
    rw [unaryChain]
    · exact List.nodup_nil
    · exact hd

theorem mem_unaryChain {t : Tree} {a : Analysis M} (h : t.analyse g forms = some a) :
    ∀ c ∈ unaryChain g forms t, c.1 < g.rules.length ∧ Over (strings g forms) c.2 := by
  induction t using unaryChain.induct generalizing a with
  | case1 k d ih =>
    obtain ⟨r, first, b, hr, hfirst, hb, hu⟩ := unary_daughter h
    intro c hc
    rw [unaryChain_phrase h, List.mem_cons] at hc
    rcases hc with rfl | hc
    · exact ⟨(List.getElem?_eq_some_iff.mp hr).1, (over_analyse _ a h).2⟩
    · exact ih hb c hc
  | case2 d hd =>
    intro c hc
    rw [unaryChain] at hc
    · cases hc
    · exact hd

/-- The pairs of a substitution. -/
def pairs (K : Finset String) (σ : Substitution) : Finset (String × String) :=
  (K ×ˢ K).filter fun p => σ.items p.1 = some p.2

theorem pairs_injective {K : Finset String} {σ τ : Substitution} (hσ : Over K σ)
    (hτ : Over K τ) (h : pairs K σ = pairs K τ) : σ = τ := by
  have hmem : ∀ {ρ : Substitution}, Over K ρ → ∀ k v, ρ.items k = some v ↔ (k, v) ∈ pairs K ρ := by
    intro ρ hρ k v
    simp only [pairs, Finset.mem_filter, Finset.mem_product]
    exact ⟨fun hk => ⟨hρ k v hk, hk⟩, fun hk => hk.2⟩
  obtain ⟨σ⟩ := σ
  obtain ⟨τ⟩ := τ
  congr 1
  funext k
  refine Option.ext fun v => ?_
  have hk := hmem hσ k v
  rw [h] at hk
  exact hk.trans (hmem hτ k v).symm

/-- How long a chain of unary productions can be. -/
def chainBound (g : Grammar M R) (forms : List String) : ℕ :=
  g.rules.length * 2 ^ ((strings g forms).card * (strings g forms).card)

theorem length_unaryChain_le (hg : Accepted g) {t : Tree} {a : Analysis M}
    (h : t.analyse g forms = some a) :
    (unaryChain g forms t).length ≤ chainBound g forms := by
  let K := strings g forms
  let code : ℕ × Substitution → ℕ × Finset (String × String) := fun c => (c.1, pairs K c.2)
  have hover := mem_unaryChain h
  have hnodup : ((unaryChain g forms t).map code).Nodup := by
    refine (List.nodup_map_iff_inj_on (unaryChain_nodup hg h)).mpr fun c hc d hd hcd => ?_
    simp only [code, Prod.mk.injEq] at hcd
    exact Prod.ext hcd.1 (pairs_injective (hover c hc).2 (hover d hd).2 hcd.2)
  have hsub : ((unaryChain g forms t).map code).toFinset ⊆
      Finset.range g.rules.length ×ˢ (K ×ˢ K).powerset := by
    intro p hp
    rw [List.mem_toFinset, List.mem_map] at hp
    obtain ⟨c, hc, rfl⟩ := hp
    rw [Finset.mem_product, Finset.mem_range, Finset.mem_powerset]
    exact ⟨(hover c hc).1, Finset.filter_subset _ _⟩
  calc (unaryChain g forms t).length = ((unaryChain g forms t).map code).toFinset.card := by
        rw [List.toFinset_card_of_nodup hnodup, List.length_map]
    _ ≤ (Finset.range g.rules.length ×ˢ (K ×ˢ K).powerset).card := Finset.card_le_card hsub
    _ = chainBound g forms := by
        rw [Finset.card_product, Finset.card_range, Finset.card_powerset, Finset.card_product]
        rfl

end Unary

/-! ### Checking a grammar -/

/-- A constant of the target that differs from the one of the source. -/
def clash (target source : Label) : Bool :=
  target.any fun p =>
    match source.lookup p.1 with
    | none => false
    | some v => !isVar p.2 && !isVar v && p.2 != v

/-- Only variables are bound. -/
def OfVariables (σ : Substitution) : Prop :=
  ∀ k v, σ.items k = some v → isVar k = true

section Checking

variable {g : Grammar M R} {source target : Label} {tSubst sSubst σ τ : Substitution}

theorem ofVariables_new : OfVariables Substitution.new := by
  intro k v h
  cases h

theorem ofVariables_unifyPairs (hσ : OfVariables σ)
    (h : unifyPairs source tSubst sSubst target σ = some τ) : OfVariables τ := by
  induction target generalizing σ with
  | nil =>
    simp only [unifyPairs, Option.some.injEq] at h
    exact h ▸ hσ
  | cons p target ih =>
    obtain ⟨key, tValue⟩ := p
    unfold unifyPairs at h
    cases hl : source.lookup key with
    | none =>
      rw [hl] at h
      exact ih hσ h
    | some sValue =>
      rw [hl] at h
      dsimp only at h
      split at h
      · exact ih hσ h
      · split at h
        · rename_i hvar
          refine ih (fun k v hk => ?_) h
          simp only [Substitution.set] at hk
          split at hk
          · rename_i hkey
            exact hkey ▸ hvar
          · exact hσ k v hk
        · split at h
          · cases h
          · exact ih hσ h

theorem subst_eq_self (hσ : OfVariables σ) {v : String} (hv : isVar v = false) :
    σ.subst v = v := by
  have hunbound : σ.items v = none := by
    cases hi : σ.items v with
    | none => rfl
    | some w =>
      rw [hσ v w hi] at hv
      cases hv
  simp [Substitution.subst, hunbound]

/-- The unifier finds a clash whatever has been bound to the variables. -/
theorem unify_eq_none_of_clash (ht : OfVariables tSubst) (hs : OfVariables sSubst)
    (hc : clash target source = true) : unifyPairs source tSubst sSubst target σ = none := by
  induction target generalizing σ with
  | nil => simp [clash] at hc
  | cons p target ih =>
    obtain ⟨key, tValue⟩ := p
    rw [clash, List.any_cons, Bool.or_eq_true] at hc
    unfold unifyPairs
    cases hl : source.lookup key with
    | none =>
      rw [hl] at hc
      exact ih (hc.resolve_left (by simp))
    | some sValue =>
      dsimp only
      rcases hc with hc | hc
      · rw [hl] at hc
        simp only [Bool.and_eq_true, Bool.not_eq_true', bne_iff_ne] at hc
        obtain ⟨⟨htv, hsv⟩, hne⟩ := hc
        simp [subst_eq_self hs hsv, subst_eq_self ht htv, htv, hsv, hne]
      · split
        · exact ih hc
        · split
          · exact ih hc
          · split
            · rfl
            · exact ih hc

/-- A rank of the productions that goes up wherever the labels do not clash. -/
theorem accepted_of_rank (rank : ℕ → ℕ) (hd : ∀ r ∈ g.rules, r.rightSide ≠ [])
    (hrank : ∀ p ∈ g.rules.zipIdx, ∀ q ∈ g.rules.zipIdx, q.1.rightSide.length = 1 →
      clash q.1.firstDaughter p.1.leftSide = true ∨ rank p.2 < rank q.2) : Accepted g := by
  refine ⟨hd, fun c hc => ?_⟩
  have hvar : ∀ {c d}, UnaryStep g c d → OfVariables d.2 := by
    rintro c d ⟨q, r, first, _, _, _, hu⟩
    exact ofVariables_unifyPairs ofVariables_new hu
  have hstep : ∀ {c d}, OfVariables c.2 → UnaryStep g c d → rank c.1 < rank d.1 := by
    rintro c d hc ⟨q, r, first, hq, hr, hfirst, hu⟩
    rcases hrank (q, c.1) (List.mem_zipIdx_iff_getElem?.mpr hq) (r, d.1)
      (List.mem_zipIdx_iff_getElem?.mpr hr) (by simp [hfirst]) with h | h
    · have hclash : clash first q.leftSide = true := by
        simpa [Rule.firstDaughter, hfirst] using h
      rw [unify, unify_eq_none_of_clash ofVariables_new hc hclash] at hu
      cases hu
    · exact h
  have hcvar : OfVariables c.2 := by
    obtain ⟨d, -, hd⟩ := TransGen.tail'_iff.mp hc
    exact hvar hd
  have hup : ∀ d, TransGen (UnaryStep g) c d → rank c.1 < rank d.1 ∧ OfVariables d.2 := by
    intro d hcd
    induction hcd with
    | single h => exact ⟨hstep hcvar h, hvar h⟩
    | tail _ h ih => exact ⟨ih.1.trans (hstep ih.2 h), hvar h⟩
  exact Nat.lt_irrefl _ (hup c hc).1

end Checking

end Qvd.ParseTrees
