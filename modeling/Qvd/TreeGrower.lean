import Mathlib.Data.List.Nodup
import Qvd.ParseTrees

/-!
The parser run on edges that remember their trees. Forgetting the trees gives the calls of
the parser back; a tree determines its edge, says where the edge comes from, and is read by
it with the unifier as in the analysis of the tree.
-/
namespace Qvd.TreeGrower

open Qvd.AgendaChart Qvd.ChartParser Qvd.ParseTrees

variable {M R : Type}

abbrev Item (M : Type) := Tree × Edge M

/-- One more daughter on the right. -/
def attach : Tree → Tree → Tree
  | .phrase i ds, d => .phrase i (ds ++ [d])
  | .word k l, _ => .word k l

def treeParser (g : Grammar M R) : Grower (Item M) String where
  isActive x := x.2.isActive
  expand x := collect (fun p => (expandRule x.2 p.1).map
    (Option.map (Prod.mk (Tree.phrase p.2 [x.1])))) g.rules.zipIdx
  combine x y := (combineEdge x.2 y.2).map (Option.map (Prod.mk (attach x.1 y.1)))

def itemsOfToken (g : Grammar M R) (token : Token) (k : ℕ) : List (Item M) :=
  (g.labelsForString token.string).zipIdx.map fun p =>
    (Tree.word k p.2, edgeOfLabel g token p.1)

def firstItems (g : Grammar M R) (toks : List Token) : List (Item M) :=
  toks.zipIdx.flatMap fun p => itemsOfToken g p.1 p.2

/-! ### The parser without the trees -/

theorem map_snd_mk {A : Type} (t : Tree) (r : Except String (Option A)) :
    (r.map (Option.map (Prod.mk t))).map (Option.map Prod.snd) = r := by
  cases r with
  | error e => rfl
  | ok o => cases o <;> rfl

theorem parser_mirrors (g : Grammar M R) :
    Grower.Mirrors (parser g) (treeParser g) Prod.snd where
  isActive _ := rfl
  expand x := by
    show collect (expandRule x.2) g.rules = (collect _ g.rules.zipIdx).map (List.map Prod.snd)
    rw [← collect_map_result]
    simp only [map_snd_mk]
    conv_lhs => rw [← List.zipIdx_map_fst 0 g.rules, collect_map]
  combine x y := (map_snd_mk _ _).symm

theorem map_snd_firstItems (g : Grammar M R) (toks : List Token) :
    (firstItems g toks).map Prod.snd = edgesFromInitialTokens g toks := by
  have htoken : ∀ p : Token × ℕ,
      (itemsOfToken g p.1 p.2).map Prod.snd = edgesOfToken g p.1 := by
    intro p
    rw [itemsOfToken, List.map_map, edgesOfToken]
    conv_rhs => rw [← List.zipIdx_map_fst 0 (g.labelsForString p.1.string), List.map_map]
    rfl
  rw [firstItems, List.map_flatMap, edgesFromInitialTokens]
  simp only [htoken]
  conv_rhs => rw [← List.zipIdx_map_fst 0 toks, List.flatMap_map]

/-! ### Single steps -/

section Steps

variable {g : Grammar M R} {x y z : Item M} {e e' : Edge M}

theorem mem_firstItems {toks : List Token} :
    x ∈ firstItems g toks ↔ ∃ k l token label, toks[k]? = some token ∧
      (g.labelsForString token.string)[l]? = some label ∧
      x = (.word k l, edgeOfLabel g token label) := by
  simp only [firstItems, itemsOfToken, List.mem_flatMap, List.mem_map,
    List.mem_zipIdx_iff_getElem?, Prod.exists]
  constructor
  · rintro ⟨token, k, hk, label, l, hl, rfl⟩
    exact ⟨k, l, token, label, hk, hl, rfl⟩
  · rintro ⟨k, l, token, label, hk, hl, rfl⟩
    exact ⟨token, k, hk, label, l, hl, rfl⟩

/-- A result that has been given its tree. -/
theorem map_mk_eq_ok {A : Type} {t : Tree} {r : Except String (Option A)} {p : Tree × A} :
    r.map (Option.map (Prod.mk t)) = .ok (some p) ↔ p.1 = t ∧ r = .ok (some p.2) := by
  cases r with
  | error e => simp [Except.map]
  | ok o =>
    cases o with
    | none => simp [Except.map]
    | some edge =>
      simp only [Except.map, Option.map_some, Except.ok.injEq, Option.some.injEq]
      constructor
      · rintro rfl
        exact ⟨rfl, rfl⟩
      · rintro ⟨h1, h2⟩
        exact Prod.ext h1.symm h2

theorem expands_ok (h : (treeParser g).Expands x y) :
    ∃ i r, g.rules[i]? = some r ∧ y.1 = .phrase i [x.1] ∧ expandRule x.2 r = .ok (some y.2) := by
  obtain ⟨ys, hys, hy⟩ := h
  obtain ⟨⟨r, i⟩, hmem, hr⟩ := (mem_collect hys y).mp hy
  rw [List.mem_zipIdx_iff_getElem?] at hmem
  obtain ⟨ht, he⟩ := map_mk_eq_ok.mp hr
  exact ⟨i, r, hmem, ht, he⟩

theorem combines_iff : (treeParser g).Combines x y z ↔
    z.1 = attach x.1 y.1 ∧ combineEdge x.2 y.2 = .ok (some z.2) :=
  map_mk_eq_ok

/-- What `percolate` does to an edge. -/
theorem percolate_ok (h : e.percolate = .ok e') :
    (e.isActive = true ∧ e' = e) ∨ (e.isActive = false ∧ ∃ r m, e.node.rule = some r ∧
      r.meaning (e.found.map Node.meaning) = .ok m ∧
      e' = { e with node := { e.node with meaning := m } }) := by
  unfold Edge.percolate at h
  cases ha : e.isActive with
  | true =>
    simp only [ha, if_true, Except.ok.injEq] at h
    exact Or.inl ⟨rfl, h.symm⟩
  | false =>
    simp only [ha, Bool.false_eq_true, if_false, Node.percolateMeaning] at h
    refine Or.inr ⟨rfl, ?_⟩
    cases hr : e.node.rule with
    | none => simp [hr, bind, Except.bind] at h
    | some r =>
      cases hm : r.meaning (e.found.map Node.meaning) with
      | error e => simp [hr, hm, bind, Except.bind] at h
      | ok m =>
        simp only [hr, hm, bind, Except.bind, pure, Except.pure, Except.ok.injEq] at h
        refine ⟨r, m, rfl, hm, ?_⟩
        rw [← h, ← hr]

theorem percolate_error {err : String} (h : e.percolate = .error err) :
    e.isActive = false ∧
      ∀ r, e.node.rule = some r → r.meaning (e.found.map Node.meaning) = .error err := by
  unfold Edge.percolate at h
  cases ha : e.isActive with
  | true => simp [ha] at h
  | false =>
    refine ⟨rfl, fun r hr => ?_⟩
    cases hm : r.meaning (e.found.map Node.meaning) with
    | error err' =>
      simp only [ha, Bool.false_eq_true, if_false, Node.percolateMeaning, hr, hm, bind,
        Except.bind, Except.error.injEq] at h
      rw [h]
    | ok m =>
      simp [ha, Node.percolateMeaning, hr, hm, bind, Except.bind, pure, Except.pure] at h

/-- The edge that an expansion puts together, before its meaning is known. -/
def expandedEdge (e : Edge M) (r : Rule M) (σ : Substitution) : Edge M :=
  ⟨Node.ofRule r σ, e.fromPos, e.toPos, [e.node], r.restOfDaughters⟩

/-- The edge that a combination puts together. -/
def combinedEdge (a b : Edge M) (r : Rule M) (σ : Substitution) : Edge M :=
  ⟨Node.ofRule r σ, a.fromPos, b.toPos, a.found ++ [b.node], a.restToFind⟩

/-- An expansion whose labels match is left to `percolate`. -/
theorem expandRule_of_unify {r : Rule M} {σ : Substitution}
    (h : unify r.firstDaughter e.node.label Substitution.new e.node.substitution = some σ) :
    expandRule e r = (expandedEdge e r σ).percolate.map some := by
  unfold expandRule
  rw [h]
  rfl

theorem combineEdge_of_unify {a b : Edge M} {r : Rule M} {σ : Substitution}
    (hloc : b.fromPos = a.toPos + 1) (hrule : a.node.rule = some r)
    (h : unify a.firstToFind b.node.label a.node.substitution b.node.substitution = some σ) :
    combineEdge a b = (combinedEdge a b r σ).percolate.map some := by
  unfold combineEdge
  rw [if_pos (by simpa [locationCondition] using hloc), h, hrule]
  rfl

/-- The cases of an expansion. -/
theorem expandRule_cases (e : Edge M) (r : Rule M) :
    expandRule e r = .ok none ∨
      ∃ σ, unify r.firstDaughter e.node.label Substitution.new e.node.substitution = some σ ∧
        expandRule e r = (expandedEdge e r σ).percolate.map some := by
  cases hu : unify r.firstDaughter e.node.label Substitution.new e.node.substitution with
  | none =>
    left
    unfold expandRule
    rw [hu]
  | some σ => exact Or.inr ⟨σ, rfl, expandRule_of_unify hu⟩

/-- The cases of a combination whose active edge has come from a rule. -/
theorem combineEdge_cases {a b : Edge M} {r : Rule M} (hrule : a.node.rule = some r) :
    combineEdge a b = .ok none ∨
      ∃ σ, b.fromPos = a.toPos + 1 ∧
        unify a.firstToFind b.node.label a.node.substitution b.node.substitution = some σ ∧
        combineEdge a b = (combinedEdge a b r σ).percolate.map some := by
  by_cases hloc : b.fromPos = a.toPos + 1
  · cases hu : unify a.firstToFind b.node.label a.node.substitution b.node.substitution with
    | none =>
      left
      unfold combineEdge
      rw [if_pos (by simpa [locationCondition] using hloc), hu]
    | some σ => exact Or.inr ⟨σ, hloc, rfl, combineEdge_of_unify hloc hrule hu⟩
  · left
    unfold combineEdge
    rw [if_neg (by simpa [locationCondition] using hloc)]

theorem map_some_eq_ok {A : Type} {r : Except String A} {a : A}
    (h : r.map some = .ok (some a)) : r = .ok a := by
  cases r with
  | error e => simp [Except.map] at h
  | ok b =>
    simp only [Except.map, Except.ok.injEq, Option.some.injEq] at h
    rw [h]

theorem expandRule_ok {r : Rule M} (h : expandRule e r = .ok (some e')) :
    ∃ σ, unify r.firstDaughter e.node.label Substitution.new e.node.substitution = some σ ∧
      (expandedEdge e r σ).percolate = .ok e' := by
  rcases expandRule_cases e r with hn | ⟨σ, hu, hp⟩
  · simp [hn] at h
  · exact ⟨σ, hu, map_some_eq_ok (hp ▸ h)⟩

theorem combineEdge_ok {a b : Edge M} {r : Rule M} (hrule : a.node.rule = some r)
    (h : combineEdge a b = .ok (some e')) :
    b.fromPos = a.toPos + 1 ∧
      ∃ σ, unify a.firstToFind b.node.label a.node.substitution b.node.substitution = some σ ∧
        (combinedEdge a b r σ).percolate = .ok e' := by
  rcases combineEdge_cases (b := b) hrule with hn | ⟨σ, hloc, hu, hp⟩
  · simp [hn] at h
  · exact ⟨hloc, σ, hu, map_some_eq_ok (hp ▸ h)⟩

theorem isActive_eq_false : e.isActive = false ↔ e.toFind = [] := by
  unfold Edge.isActive
  cases e.toFind <;> simp

theorem isActive_eq_true : e.isActive = true ↔ ∃ f fs, e.toFind = f :: fs := by
  unfold Edge.isActive
  cases e.toFind <;> simp

end Steps

/-! ### What an edge says about its tree -/

/-- The edge runs from the start of the first token of the tree to the end of the last. -/
def Located (forms : List String) (t : Tree) (e : Edge M) : Prop :=
  ∃ first count x y, t.Spans first (count + 1) ∧
    (tokens forms)[first]? = some x ∧ x.fromPos = e.fromPos ∧
    (tokens forms)[first + count]? = some y ∧ y.toPos = e.toPos

/-- The daughters found so far match the first part of the right side. -/
def Partly (g : Grammar M R) (forms : List String) (t : Tree) (e : Edge M) : Prop :=
  ∃ i ds r matched, t = .phrase i ds ∧ ds ≠ [] ∧ g.rules[i]? = some r ∧
    r.rightSide = matched ++ e.toFind ∧ e.node.rule = some r ∧ e.node.label = r.leftSide ∧
    analyseAll g forms matched ds Substitution.new =
      some (e.node.substitution, .ok (e.found.map Node.meaning))

/-- The node of the edge is the constituent that the tree stands for. -/
def Reads (g : Grammar M R) (forms : List String) (t : Tree) (e : Edge M) : Prop :=
  t.analyse g forms = some ⟨e.node.label, e.node.substitution, .ok e.node.meaning⟩

structure Matches (g : Grammar M R) (forms : List String) (x : Item M) : Prop where
  located : Located forms x.1 x.2
  active : x.2.isActive = true → Partly g forms x.1 x.2
  inactive : x.2.isActive = false → Reads g forms x.1 x.2

section Matching

variable {g : Grammar M R} {forms : List String} {t : Tree} {e e' : Edge M} {x y z : Item M}

theorem toFind_of_percolate (h : e.percolate = .ok e') :
    e'.toFind = e.toFind ∧ e'.fromPos = e.fromPos ∧ e'.toPos = e.toPos ∧
      e'.node.substitution = e.node.substitution := by
  rcases percolate_ok h with ⟨-, rfl⟩ | ⟨-, r, m, -, -, rfl⟩
  · exact ⟨rfl, rfl, rfl, rfl⟩
  · exact ⟨rfl, rfl, rfl, rfl⟩

/-- Once the right side is used up the callback gives the meaning of the tree. -/
theorem matches_of_percolate (hloc : Located forms t e) (hp : Partly g forms t e)
    (h : e.percolate = .ok e') : Matches g forms (t, e') := by
  have hpos := toFind_of_percolate h
  refine ⟨?_, ?_, ?_⟩
  · obtain ⟨first, count, x, y, hspan, hx, hxe, hy, hye⟩ := hloc
    exact ⟨first, count, x, y, hspan, hx, hxe.trans hpos.2.1.symm, hy,
      hye.trans hpos.2.2.1.symm⟩
  · intro ha
    rcases percolate_ok h with ⟨-, rfl⟩ | ⟨hi, -⟩
    · exact hp
    · have hnil : e'.toFind = [] := hpos.1.trans (isActive_eq_false.mp hi)
      have hi' := isActive_eq_false.mpr hnil
      simp only at ha
      rw [hi'] at ha
      cases ha
  · intro hi
    rcases percolate_ok h with ⟨ha, rfl⟩ | ⟨hi', r, m, hr, hm, rfl⟩
    · simp only at hi
      rw [ha] at hi
      cases hi
    · obtain ⟨i, ds, r', matched, rfl, -, hr', hright, hrule, hlabel, hall⟩ := hp
      obtain rfl : r = r' := by
        rw [hr, Option.some.injEq] at hrule
        exact hrule
      rw [isActive_eq_false.mp hi', List.append_nil] at hright
      refine analyse_phrase.mpr ⟨r, e.node.substitution, .ok (e.found.map Node.meaning), hr',
        hright ▸ hall, ?_⟩
      simp only [applyCallback, Except.bind, hm, hlabel]

theorem matches_first (h : x ∈ firstItems g (tokens forms)) : Matches g forms x := by
  obtain ⟨k, l, token, label, hk, hl, rfl⟩ := mem_firstItems.mp h
  have hform : forms[k]? = some token.string := by
    rw [← string_of_getElem? (p := 0), show (tokensFrom 0 forms)[k]? = some token from hk]
    rfl
  refine ⟨⟨k, 0, token, token, ?_, hk, rfl, hk, rfl⟩, ?_, ?_⟩
  · simp [Tree.Spans]
  · intro ha
    simp [edgeOfLabel, Edge.isActive] at ha
  · intro _
    exact analyse_word.mpr ⟨token.string, label, hform, hl, rfl⟩

theorem rightSide_eq (hg : Accepted g) {i : ℕ} {r : Rule M} (hr : g.rules[i]? = some r) :
    r.rightSide = r.firstDaughter :: r.restOfDaughters := by
  have hne := hg.daughters r (List.mem_of_getElem? hr)
  unfold Rule.firstDaughter Rule.restOfDaughters
  cases hright : r.rightSide with
  | nil => exact absurd hright hne
  | cons f fs => rfl

/-- An expansion has matched the first daughter of its rule. -/
theorem partly_expanded (hg : Accepted g) (hx : Matches g forms x) (hi : x.2.isActive = false)
    {i : ℕ} {r : Rule M} {σ : Substitution} (hr : g.rules[i]? = some r)
    (hu : unify r.firstDaughter x.2.node.label Substitution.new x.2.node.substitution =
      some σ) :
    Located forms (.phrase i [x.1]) (expandedEdge x.2 r σ) ∧
      Partly g forms (.phrase i [x.1]) (expandedEdge x.2 r σ) := by
  constructor
  · obtain ⟨first, count, u, v, hspan, hrest⟩ := hx.located
    refine ⟨first, count, u, v, ?_, hrest⟩
    simpa [Tree.Spans] using hspan
  · refine ⟨i, [x.1], r, [r.firstDaughter], rfl, by simp, hr, rightSide_eq hg hr, rfl, rfl, ?_⟩
    exact analyseAll_cons.mpr ⟨_, σ, .ok [], hx.inactive hi, hu,
      by simp [expandedEdge, Node.ofRule], rfl⟩

theorem matches_expand (hg : Accepted g) (hx : Matches g forms x) (hi : x.2.isActive = false)
    (h : (treeParser g).Expands x y) : Matches g forms y := by
  obtain ⟨i, r, hr, hy, hexp⟩ := expands_ok h
  obtain ⟨σ, hu, hp⟩ := expandRule_ok hexp
  obtain ⟨hloc, hpart⟩ := partly_expanded hg hx hi hr hu
  obtain ⟨s, e'⟩ := y
  obtain rfl : s = .phrase i [x.1] := hy
  exact matches_of_percolate hloc hpart hp

/-- Two neighbours cover their tokens together. -/
theorem spans_attach {i : ℕ} {ds : List Tree} {d : Tree} {first count first' count' : ℕ}
    (h : (Tree.phrase i ds).Spans first count) (h' : d.Spans first' count')
    (hnext : first' = first + count) :
    (Tree.phrase i (ds ++ [d])).Spans first (count + count') := by
  simp only [Tree.Spans, yield_phrase, yieldAll_append, yieldAll_cons, yieldAll_nil,
    List.append_nil] at *
  rw [h, h', hnext, List.range'_append_1]

/-- A combination has matched one daughter more. -/
theorem partly_combined (hx : Matches g forms x) (ha : x.2.isActive = true)
    (hy : Matches g forms y) (hi : y.2.isActive = false) {r : Rule M} {σ : Substitution}
    (hrule : x.2.node.rule = some r) (hnext : y.2.fromPos = x.2.toPos + 1)
    (hu : unify x.2.firstToFind y.2.node.label x.2.node.substitution y.2.node.substitution =
      some σ) :
    Located forms (attach x.1 y.1) (combinedEdge x.2 y.2 r σ) ∧
      Partly g forms (attach x.1 y.1) (combinedEdge x.2 y.2 r σ) := by
  obtain ⟨i, ds, r', matched, ht, hds, hr', hright, hrule', hlabel, hall⟩ := hx.active ha
  obtain rfl : r = r' := by
    rw [hrule, Option.some.injEq] at hrule'
    exact hrule'
  obtain ⟨f, fs, hfind⟩ := isActive_eq_true.mp ha
  rw [show attach x.1 y.1 = .phrase i (ds ++ [y.1]) by rw [ht, attach]]
  constructor
  · obtain ⟨first, count, u, v, hspan, hu, hue, hv, hve⟩ := hx.located
    obtain ⟨first', count', u', v', hspan', hu', hue', hv', hve'⟩ := hy.located
    have hfirst : first' = first + count + 1 := by
      rw [← hue', ← hve] at hnext
      exact (fromPos_eq_iff hv hu').mp hnext
    refine ⟨first, count + 1 + count', u, v', ?_, hu, hue, ?_, hve'⟩
    · rw [ht] at hspan
      have hboth := spans_attach hspan hspan' (by omega)
      exact hboth
    · rw [← hv', hfirst]
      congr 1
      omega
  · refine ⟨i, ds ++ [y.1], r, matched ++ [f], rfl, by simp, hr', ?_, rfl, rfl, ?_⟩
    · rw [hright, hfind]
      simp [combinedEdge, Edge.restToFind, hfind]
    · have hf : x.2.firstToFind = f := by simp [Edge.firstToFind, hfind]
      rw [hf] at hu
      simpa [combinedEdge, Node.ofRule] using analyseAll_snoc hall (hy.inactive hi) rfl hu

theorem rule_of_active (hx : Matches g forms x) (ha : x.2.isActive = true) :
    ∃ r, x.2.node.rule = some r := by
  obtain ⟨-, -, r, -, -, -, -, -, hrule, -⟩ := hx.active ha
  exact ⟨r, hrule⟩

theorem matches_combine (hx : Matches g forms x) (ha : x.2.isActive = true)
    (hy : Matches g forms y) (hi : y.2.isActive = false)
    (h : (treeParser g).Combines x y z) : Matches g forms z := by
  obtain ⟨hz, hc⟩ := combines_iff.mp h
  obtain ⟨r, hrule⟩ := rule_of_active hx ha
  obtain ⟨hnext, σ, hu, hp⟩ := combineEdge_ok hrule hc
  obtain ⟨hloc, hpart⟩ := partly_combined hx ha hy hi hrule hnext hu
  obtain ⟨t, e⟩ := z
  obtain rfl : t = attach x.1 y.1 := hz
  exact matches_of_percolate hloc hpart hp

/-- Every edge of the chart says the truth about its tree. -/
theorem grown_matches (hg : Accepted g)
    (h : (treeParser g).Grown (firstItems g (tokens forms)) x) : Matches g forms x := by
  induction h with
  | start h => exact matches_first h
  | expand _ hi h ih => exact matches_expand hg ih hi h
  | combine _ _ ha hi h iha ihb => exact matches_combine iha ha ihb hi h

/-! ### One origin for each edge -/

theorem active_phrase (hg : Accepted g)
    (h : (treeParser g).Active (firstItems g (tokens forms)) x) :
    ∃ i ds, x.1 = .phrase i ds ∧ ds ≠ [] := by
  obtain ⟨i, ds, -, -, ht, hds, -⟩ := (grown_matches hg h.1).active h.2
  exact ⟨i, ds, ht, hds⟩

/-- A combination has one daughter more than its active part, hence at least two. -/
theorem attach_phrase (hg : Accepted g)
    (hx : (treeParser g).Active (firstItems g (tokens forms)) x)
    (h : (treeParser g).Combines x y z) :
    ∃ i ds, x.1 = .phrase i ds ∧ ds ≠ [] ∧ z.1 = .phrase i (ds ++ [y.1]) := by
  obtain ⟨i, ds, ht, hds⟩ := active_phrase hg hx
  refine ⟨i, ds, ht, hds, ?_⟩
  rw [(combines_iff.mp h).1, ht, attach]

theorem single_ne_append {d d' : Tree} {ds : List Tree} (hds : ds ≠ []) :
    [d] ≠ ds ++ [d'] := by
  cases ds with
  | nil => exact absurd rfl hds
  | cons a as => simp

/-- A tree determines its edge. -/
theorem edge_unique (hg : Accepted g)
    (hx : (treeParser g).Grown (firstItems g (tokens forms)) x)
    (hy : (treeParser g).Grown (firstItems g (tokens forms)) y) (h : x.1 = y.1) :
    x.2 = y.2 := by
  induction hx generalizing y with
  | @start x hx =>
    obtain ⟨k, l, token, label, hk, hl, rfl⟩ := mem_firstItems.mp hx
    cases hy with
    | start hy =>
      obtain ⟨k', l', token', label', hk', hl', rfl⟩ := mem_firstItems.mp hy
      simp only [Tree.word.injEq] at h
      obtain ⟨rfl, rfl⟩ := h
      rw [hk, Option.some.injEq] at hk'
      subst hk'
      rw [hl, Option.some.injEq] at hl'
      subst hl'
      rfl
    | expand _ _ he =>
      obtain ⟨i, r, -, hy, -⟩ := expands_ok he
      simp [hy] at h
    | combine ha _ hai _ hc =>
      obtain ⟨i, ds, -, -, hz⟩ := attach_phrase hg ⟨ha, hai⟩ hc
      simp [hz] at h
  | @expand u x hu hui he ih =>
    obtain ⟨i, r, hr, hx, hexp⟩ := expands_ok he
    cases hy with
    | start hy =>
      obtain ⟨k, l, token, label, -, -, rfl⟩ := mem_firstItems.mp hy
      simp [hx] at h
    | @expand v _ hv hvi he' =>
      obtain ⟨i', r', hr', hy, hexp'⟩ := expands_ok he'
      simp only [hx, hy, Tree.phrase.injEq, List.cons.injEq, and_true] at h
      obtain ⟨rfl, huv⟩ := h
      rw [hr, Option.some.injEq] at hr'
      subst hr'
      rw [ih hv huv, hexp'] at hexp
      simpa using hexp.symm
    | combine ha _ hai _ hc =>
      obtain ⟨i', ds, -, hds, hz⟩ := attach_phrase hg ⟨ha, hai⟩ hc
      simp only [hx, hz, Tree.phrase.injEq] at h
      exact absurd h.2 (single_ne_append hds)
  | @combine a b x ha hb hai hbi hc iha ihb =>
    obtain ⟨i, ds, hta, hds, hx⟩ := attach_phrase hg ⟨ha, hai⟩ hc
    have hcomb := (combines_iff.mp hc).2
    cases hy with
    | start hy =>
      obtain ⟨k, l, token, label, -, -, rfl⟩ := mem_firstItems.mp hy
      simp [hx] at h
    | expand _ _ he' =>
      obtain ⟨i', r', -, hy, -⟩ := expands_ok he'
      simp only [hx, hy, Tree.phrase.injEq] at h
      exact absurd h.2.symm (single_ne_append hds)
    | @combine a' b' _ ha' hb' hai' hbi' hc' =>
      obtain ⟨i', ds', hta', hds', hy⟩ := attach_phrase hg ⟨ha', hai'⟩ hc'
      have hcomb' := (combines_iff.mp hc').2
      simp only [hx, hy, Tree.phrase.injEq] at h
      obtain ⟨rfl, happ⟩ := h
      obtain ⟨rfl, hlast⟩ := List.append_inj' happ rfl
      simp only [List.cons.injEq, and_true] at hlast
      rw [iha ha' (hta.trans hta'.symm), ihb hb' hlast, hcomb'] at hcomb
      simpa using hcomb.symm

theorem item_unique (hg : Accepted g)
    (hx : (treeParser g).Grown (firstItems g (tokens forms)) x)
    (hy : (treeParser g).Grown (firstItems g (tokens forms)) y) (h : x.1 = y.1) : x = y :=
  Prod.ext h (edge_unique hg hx hy h)

theorem nodup_zipIdx {A : Type*} (l : List A) : l.zipIdx.Nodup := by
  refine List.Nodup.of_map Prod.snd ?_
  rw [List.zipIdx_map_snd]
  exact List.nodup_range' ..

/-- The place of an element says which it is. -/
theorem eq_of_mem_zipIdx {A : Type*} {l : List A} {p q : A × ℕ} (hp : p ∈ l.zipIdx)
    (hq : q ∈ l.zipIdx) (h : p.2 = q.2) : p = q := by
  rw [List.mem_zipIdx_iff_getElem?] at hp hq
  rw [h, hq, Option.some.injEq] at hp
  exact Prod.ext hp.symm h

theorem nodup_firstItems (toks : List Token) : (firstItems g toks).Nodup := by
  refine List.nodup_flatMap.mpr ⟨fun p _ => ?_, ?_⟩
  · refine (List.nodup_map_iff_inj_on (nodup_zipIdx _)).mpr fun q hq q' hq' h => ?_
    simp only [Prod.mk.injEq, Tree.word.injEq, true_and] at h
    exact eq_of_mem_zipIdx hq hq' h.1
  · refine (nodup_zipIdx toks).imp_of_mem fun {p q} hp hq hne => ?_
    intro x hx hx'
    simp only [itemsOfToken, List.mem_map] at hx hx'
    obtain ⟨u, -, rfl⟩ := hx
    obtain ⟨v, -, hv⟩ := hx'
    simp only [Prod.mk.injEq, Tree.word.injEq] at hv
    exact hne (eq_of_mem_zipIdx hp hq hv.1.1.symm)

/-- No tree is met twice. -/
theorem unambiguous (hg : Accepted g) :
    (treeParser g).Unambiguous (firstItems g (tokens forms)) where
  start_nodup := nodup_firstItems _
  expand_nodup x ys _ hys := by
    refine nodup_collect hys (nodup_zipIdx _) fun p hp q hq y hy hy' => ?_
    have htree := (map_mk_eq_ok.mp hy).1.symm.trans (map_mk_eq_ok.mp hy').1
    simp only [Tree.phrase.injEq, and_true] at htree
    exact eq_of_mem_zipIdx hp hq htree
  expand_fresh x y _ he hmem := by
    obtain ⟨i, r, -, hy, -⟩ := expands_ok he
    obtain ⟨k, l, token, label, -, -, rfl⟩ := mem_firstItems.mp hmem
    cases hy
  combine_fresh a b y ha _ hc hmem := by
    obtain ⟨i, ds, -, -, hy⟩ := attach_phrase hg ha hc
    obtain ⟨k, l, token, label, -, -, rfl⟩ := mem_firstItems.mp hmem
    cases hy
  expand_unique x x' y hx hx' he he' := by
    obtain ⟨i, r, -, hy, -⟩ := expands_ok he
    obtain ⟨i', r', -, hy', -⟩ := expands_ok he'
    simp only [hy, Tree.phrase.injEq, List.cons.injEq, and_true] at hy'
    exact item_unique hg hx.1 hx'.1 hy'.2
  combine_unique a b a' b' y ha hb ha' hb' hc hc' := by
    obtain ⟨i, ds, ht, -, hy⟩ := attach_phrase hg ha hc
    obtain ⟨i', ds', ht', -, hy'⟩ := attach_phrase hg ha' hc'
    simp only [hy, Tree.phrase.injEq] at hy'
    obtain ⟨rfl, happ⟩ := hy'
    obtain ⟨rfl, hlast⟩ := List.append_inj' happ rfl
    simp only [List.cons.injEq, and_true] at hlast
    exact ⟨item_unique hg ha.1 ha'.1 (ht.trans ht'.symm), item_unique hg hb.1 hb'.1 hlast⟩
  expand_ne_combine x a b y _ ha _ he hc := by
    obtain ⟨i, r, -, hy, -⟩ := expands_ok he
    obtain ⟨i', ds, -, hds, hy'⟩ := attach_phrase hg ha hc
    simp only [hy, Tree.phrase.injEq] at hy'
    exact single_ne_append hds hy'.2

/-! ### The weight of an edge -/

/-- The tokens covered; for the same tokens, the unary productions at the top; an active edge
comes after all of them. -/
def weight (g : Grammar M R) (forms : List String) (x : Item M) : ℕ :=
  (chainBound g forms + 3) * x.1.yield.length +
    if x.2.isActive then chainBound g forms + 2 else (unaryChain g forms x.1).length

theorem length_unaryChain_of_inactive (hg : Accepted g)
    (hx : (treeParser g).Inactive (firstItems g (tokens forms)) x) :
    (unaryChain g forms x.1).length ≤ chainBound g forms :=
  length_unaryChain_le hg ((grown_matches hg hx.1).inactive hx.2)

theorem length_yield_pos (hg : Accepted g)
    (hx : (treeParser g).Grown (firstItems g (tokens forms)) x) :
    0 < x.1.yield.length := by
  obtain ⟨first, count, u, v, hspan, -⟩ := (grown_matches hg hx).located
  simp only [Tree.Spans] at hspan
  simp [hspan]

theorem length_yield_le (hg : Accepted g)
    (hx : (treeParser g).Grown (firstItems g (tokens forms)) x) :
    x.1.yield.length ≤ forms.length := by
  obtain ⟨first, count, u, v, hspan, -, -, hv, -⟩ := (grown_matches hg hx).located
  have hlt := (List.getElem?_eq_some_iff.mp hv).1
  simp only [Tree.Spans] at hspan
  rw [tokens, length_tokensFrom] at hlt
  simp only [hspan, List.length_range']
  omega

theorem weight_le (hg : Accepted g)
    (hx : (treeParser g).Grown (firstItems g (tokens forms)) x) :
    weight g forms x ≤
      (chainBound g forms + 3) * x.1.yield.length + (chainBound g forms + 2) := by
  unfold weight
  split
  · exact Nat.le_refl _
  · rename_i hi
    have h := length_unaryChain_of_inactive hg ⟨hx, Bool.eq_false_iff.mpr hi⟩
    omega

theorem weight_expand (hg : Accepted g)
    (hx : (treeParser g).Inactive (firstItems g (tokens forms)) x)
    (h : (treeParser g).Expands x y) : weight g forms x < weight g forms y := by
  obtain ⟨i, r, -, hy, -⟩ := expands_ok h
  have hyield : y.1.yield.length = x.1.yield.length := by simp [hy]
  have hunary : (unaryChain g forms y.1).length = (unaryChain g forms x.1).length + 1 := by
    simp [hy, unaryChain]
  have hle := length_unaryChain_of_inactive hg hx
  have hxi : x.2.isActive = false := hx.2
  simp only [weight, hyield, hunary, hxi, Bool.false_eq_true, if_false]
  split <;> omega

theorem weight_combine (hg : Accepted g)
    (hx : (treeParser g).Active (firstItems g (tokens forms)) x)
    (hy : (treeParser g).Inactive (firstItems g (tokens forms)) y)
    (h : (treeParser g).Combines x y z) :
    weight g forms x < weight g forms z ∧ weight g forms y < weight g forms z := by
  obtain ⟨i, ds, ht, -, hz⟩ := attach_phrase hg hx h
  have hyield : z.1.yield.length = x.1.yield.length + y.1.yield.length := by
    simp [hz, ht, yieldAll_append]
  have hlow : (chainBound g forms + 3) * z.1.yield.length ≤ weight g forms z :=
    Nat.le_add_right _ _
  have hxle := weight_le hg hx.1
  have hyle := weight_le hg hy.1
  have hmul : (chainBound g forms + 3) * z.1.yield.length =
      (chainBound g forms + 3) * x.1.yield.length +
        (chainBound g forms + 3) * y.1.yield.length := by
    rw [hyield, Nat.mul_add]
  have hxpos : chainBound g forms + 3 ≤ (chainBound g forms + 3) * x.1.yield.length :=
    Nat.le_mul_of_pos_right _ (length_yield_pos hg hx.1)
  have hypos : chainBound g forms + 3 ≤ (chainBound g forms + 3) * y.1.yield.length :=
    Nat.le_mul_of_pos_right _ (length_yield_pos hg hy.1)
  omega

/-- The weight grows with every step and is bounded for a list of tokens. -/
theorem bounded (hg : Accepted g) :
    (treeParser g).Bounded (firstItems g (tokens forms)) (weight g forms)
      ((chainBound g forms + 3) * forms.length + (chainBound g forms + 2)) where
  expand _ _ hx h := weight_expand hg hx h
  combine _ _ _ ha hb h := weight_combine hg ha hb h
  le x hx := by
    have h1 := weight_le hg hx
    have h2 := Nat.mul_le_mul_left (chainBound g forms + 3) (length_yield_le hg hx)
    omega

end Matching

end Qvd.TreeGrower
