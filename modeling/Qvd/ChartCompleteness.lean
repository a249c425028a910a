import Mathlib.Data.List.Forall2
import Qvd.TreeGrower

/-!
The answer of the parser against the derivations of a token list.
In an accepted grammar the parser always comes to an end. Unless a callback dies, or the
wrapper of the answer refuses a meaning, it returns one entry for each derivation and no
other; in those cases it dies.
-/
namespace Qvd.ChartCompleteness

open Qvd.AgendaChart Qvd.ChartParser Qvd.ParseTrees Qvd.TreeGrower

variable {M R : Type} {g : Grammar M R} {forms : List String} {x y : Item M} {t : Tree}

/-! ### Steps that are not lost -/

section Steps

variable {r : Rule M} {i : ℕ} {σ : Substitution}

/-- Where nothing fails, a rule whose first daughter matches has its edge. -/
theorem grown_expand (hf : ¬ (treeParser g).Fails (firstItems g (tokens forms)))
    (hx : (treeParser g).Inactive (firstItems g (tokens forms)) x) (hr : g.rules[i]? = some r)
    (hu : unify r.firstDaughter x.2.node.label Substitution.new x.2.node.substitution =
      some σ) :
    ∃ e, (treeParser g).Grown (firstItems g (tokens forms)) (.phrase i [x.1], e) ∧
      (expandedEdge x.2 r σ).percolate = .ok e := by
  cases hys : (treeParser g).expand x with
  | error err => exact absurd (Or.inl ⟨x, err, hx, hys⟩) hf
  | ok ys =>
    have hmem : (r, i) ∈ g.rules.zipIdx := List.mem_zipIdx_iff_getElem?.mpr hr
    obtain ⟨o, ho⟩ := ok_of_collect hys (r, i) hmem
    dsimp only at ho
    rw [expandRule_of_unify hu] at ho
    cases hp : (expandedEdge x.2 r σ).percolate with
    | error err => simp [hp, Except.map] at ho
    | ok e =>
      refine ⟨e, Grower.Grown.expand hx.1 hx.2 ⟨ys, hys, ?_⟩, rfl⟩
      refine (mem_collect hys _).mpr ⟨(r, i), hmem, ?_⟩
      dsimp only
      rw [expandRule_of_unify hu, hp]
      rfl

/-- Where nothing fails, neighbours whose labels match are combined. -/
theorem grown_combine (hf : ¬ (treeParser g).Fails (firstItems g (tokens forms)))
    (hx : (treeParser g).Active (firstItems g (tokens forms)) x)
    (hy : (treeParser g).Inactive (firstItems g (tokens forms)) y)
    (hrule : x.2.node.rule = some r) (hnext : y.2.fromPos = x.2.toPos + 1)
    (hu : unify x.2.firstToFind y.2.node.label x.2.node.substitution y.2.node.substitution =
      some σ) :
    ∃ e, (treeParser g).Grown (firstItems g (tokens forms)) (attach x.1 y.1, e) ∧
      (combinedEdge x.2 y.2 r σ).percolate = .ok e := by
  have hcomb : (treeParser g).combine x y =
      ((combinedEdge x.2 y.2 r σ).percolate.map some).map
        (Option.map (Prod.mk (attach x.1 y.1))) := by
    rw [← combineEdge_of_unify hnext hrule hu]
    rfl
  cases hp : (combinedEdge x.2 y.2 r σ).percolate with
  | error err =>
    rw [hp] at hcomb
    exact absurd (Or.inr ⟨x, y, err, hx, hy, hcomb⟩) hf
  | ok e =>
    rw [hp] at hcomb
    exact ⟨e, Grower.Grown.combine hx.1 hy.1 hx.2 hy.2 hcomb, rfl⟩

end Steps

/-! ### Every constituent is found -/

section Found

/-- The tokens a tree covers fix the positions of its edge. -/
theorem Located.positions {e : Edge M} {first count : ℕ} (h : Located forms t e)
    (hspan : t.Spans first count) :
    ∃ u v, 0 < count ∧ (tokens forms)[first]? = some u ∧ u.fromPos = e.fromPos ∧
      (tokens forms)[first + count - 1]? = some v ∧ v.toPos = e.toPos := by
  obtain ⟨first', count', u, v, hspan', hu, hue, hv, hve⟩ := h
  have hrange : List.range' first' (count' + 1) = List.range' first count :=
    hspan'.symm.trans hspan
  have hcount : count = count' + 1 := by
    have hlen := congrArg List.length hrange
    simpa using hlen.symm
  subst hcount
  rw [List.range'_succ, List.range'_succ, List.cons.injEq] at hrange
  obtain ⟨rfl, -⟩ := hrange
  exact ⟨u, v, Nat.succ_pos _, hu, hue, hv, hve⟩

/-- The constituent of a grown item is the one of its tree. -/
theorem analysis_eq (hg : Accepted g)
    (hx : (treeParser g).Inactive (firstItems g (tokens forms)) x) {a : Analysis M}
    (ha : x.1.analyse g forms = some a) :
    a = ⟨x.2.node.label, x.2.node.substitution, .ok x.2.node.meaning⟩ := by
  have hreads := (grown_matches hg hx.1).inactive hx.2
  rw [Reads, ha, Option.some.injEq] at hreads
  exact hreads

/-- A tree of a segment whose constituents are in the chart. -/
def FoundTree (g : Grammar M R) (forms : List String) (t : Tree) : Prop :=
  ∀ a first count, t.analyse g forms = some a → t.Spans first count →
    ∃ e, (treeParser g).Inactive (firstItems g (tokens forms)) (t, e)

/-- The rest of the daughters are attached one after the other. -/
theorem found_append (hg : Accepted g)
    (hf : ¬ (treeParser g).Fails (firstItems g (tokens forms))) {i : ℕ} {pre ds : List Tree}
    {e : Edge M} {τ : Substitution} {ms : Except String (List (Option M))}
    {first count count' : ℕ}
    (hx : (treeParser g).Grown (firstItems g (tokens forms)) (.phrase i pre, e))
    (hall : analyseAll g forms e.toFind ds e.node.substitution = some (τ, ms))
    (hpre : (Tree.phrase i pre).Spans first count)
    (hds : yieldAll ds = List.range' (first + count) count')
    (hfound : ∀ d ∈ ds, FoundTree g forms d) :
    ∃ e', (treeParser g).Inactive (firstItems g (tokens forms)) (.phrase i (pre ++ ds), e') := by
  induction ds generalizing pre e ms count count' with
  | nil =>
    have hnil : e.toFind = [] := List.length_eq_zero_iff.mp (analyseAll_length hall)
    rw [List.append_nil]
    exact ⟨e, hx, isActive_eq_false.mpr hnil⟩
  | cons d ds ih =>
    cases hfind : e.toFind with
    | nil =>
      have hlen := analyseAll_length hall
      simp [hfind] at hlen
    | cons f fs =>
      have hactive : (treeParser g).Active (firstItems g (tokens forms)) (.phrase i pre, e) :=
        ⟨hx, isActive_eq_true.mpr ⟨f, fs, hfind⟩⟩
      rw [hfind] at hall
      obtain ⟨a, σ, ms', ha, hu, hrest, -⟩ := analyseAll_cons.mp hall
      rw [yieldAll_cons] at hds
      obtain ⟨k, hk, hd, hds'⟩ := List.range'_eq_append_iff.mp hds.symm
      obtain ⟨ed, hed⟩ := hfound d List.mem_cons_self a _ _ ha hd
      have hma := grown_matches hg hx
      have hmd := grown_matches hg hed.1
      -- the daughter starts where the active edge ends
      have hnext : ed.fromPos = e.toPos + 1 := by
        obtain ⟨u, v, hc, -, -, hv, hve⟩ := Located.positions hma.located hpre
        obtain ⟨u', -, -, hu', hue', -, -⟩ := Located.positions hmd.located hd
        rw [← hue', ← hve]
        exact (fromPos_eq_iff hv hu').mpr (by omega)
      obtain ⟨r, hrule⟩ := rule_of_active hma hactive.2
      have hunify : unify e.firstToFind ed.node.label e.node.substitution
          ed.node.substitution = some σ := by
        rw [analysis_eq hg hed ha] at hu
        simpa [Edge.firstToFind, hfind] using hu
      obtain ⟨e', he', hp⟩ := grown_combine hf hactive hed hrule hnext hunify
      obtain ⟨htofind, -, -, hsubst⟩ := toFind_of_percolate hp
      have htofind' : e'.toFind = fs := by
        rw [htofind]
        simp [combinedEdge, Edge.restToFind, hfind]
      have hsubst' : e'.node.substitution = σ := hsubst
      have hspan := spans_attach hpre hd rfl
      have hyield : yieldAll ds = List.range' (first + (count + k)) (count' - k) := by
        rw [hds']
        congr 1
        omega
      have hgo := ih he' (by rw [htofind', hsubst']; exact hrest) hspan hyield fun d' hd' =>
        hfound d' (List.mem_cons_of_mem _ hd')
      simpa using hgo

/-- Where nothing fails, every constituent over a segment is in the chart. -/
theorem found (hg : Accepted g)
    (hf : ¬ (treeParser g).Fails (firstItems g (tokens forms))) : ∀ t, FoundTree g forms t := by
  intro t
  induction t using Tree.induct with
  | word k l =>
    intro a first count ha hspan
    obtain ⟨form, label, hform, hlabel, rfl⟩ := analyse_word.mp ha
    rw [← string_of_getElem? (p := 0)] at hform
    obtain ⟨token, htoken, rfl⟩ := Option.map_eq_some_iff.mp hform
    refine ⟨edgeOfLabel g token label, Grower.Grown.start ?_, rfl⟩
    exact mem_firstItems.mpr ⟨k, l, token, label, htoken, hlabel, rfl⟩
  | phrase i ds ih =>
    intro a first count ha hspan
    obtain ⟨r, σ, ms, hr, hall, rfl⟩ := analyse_phrase.mp ha
    rw [rightSide_eq hg hr] at hall
    cases ds with
    | nil =>
      have hlen := analyseAll_length hall
      simp at hlen
    | cons d ds =>
      obtain ⟨b, σ', ms', hb, hu, hrest, -⟩ := analyseAll_cons.mp hall
      rw [Tree.Spans, yield_phrase, yieldAll_cons] at hspan
      obtain ⟨k, hk, hd, hds⟩ := List.range'_eq_append_iff.mp hspan.symm
      obtain ⟨ed, hed⟩ := ih d List.mem_cons_self b _ _ hb hd
      rw [analysis_eq hg hed hb] at hu
      obtain ⟨e, he, hp⟩ := grown_expand hf hed hr hu
      obtain ⟨htofind, -, -, hsubst⟩ := toFind_of_percolate hp
      have hspan' : (Tree.phrase i [d]).Spans first k := by
        simpa [Tree.Spans] using hd
      have hyield : yieldAll ds = List.range' (first + k) (count - k) := by
        rw [hds]
        congr 1
        omega
      have hrest' : analyseAll g forms e.toFind ds e.node.substitution = some (σ, ms') := by
        rw [htofind, hsubst]
        exact hrest
      exact found_append hg hf he hrest' hspan' hyield fun d' hd' =>
        ih d' (List.mem_cons_of_mem _ hd')

end Found

/-! ### Callbacks that die -/

section Failing

/-- A callback that dies does so on a constituent of some segment. -/
theorem dies_of_percolate {e : Edge M} {err : String} (hloc : Located forms t e)
    (hpart : Partly g forms t e) (h : e.percolate = .error err) :
    ∃ first count a, t.Spans first count ∧ t.analyse g forms = some a ∧
      a.meaning = .error err := by
  obtain ⟨first, count, -, -, hspan, -⟩ := hloc
  obtain ⟨i, ds, r, matched, rfl, -, hr, hright, hrule, -, hall⟩ := hpart
  obtain ⟨hi, hcallback⟩ := percolate_error h
  rw [isActive_eq_false.mp hi, List.append_nil] at hright
  refine ⟨first, count + 1, _, hspan, analyse_phrase.mpr
    ⟨r, e.node.substitution, .ok (e.found.map Node.meaning), hr, hright ▸ hall, rfl⟩, ?_⟩
  exact hcallback r hrule

theorem dies_of_fails (hg : Accepted g)
    (h : (treeParser g).Fails (firstItems g (tokens forms))) :
    ∃ (t : Tree) (first count : ℕ) (a : Analysis M) (e : String), t.Spans first count ∧
      t.analyse g forms = some a ∧ a.meaning = .error e := by
  rcases h with ⟨x, err, hx, he⟩ | ⟨x, y, err, hx, hy, he⟩
  · obtain ⟨⟨r, i⟩, hmem, hr⟩ := error_of_collect he
    rw [List.mem_zipIdx_iff_getElem?] at hmem
    rcases expandRule_cases x.2 r with hn | ⟨σ, hu, hp⟩
    · simp [hn, Except.map] at hr
    · cases hc : (expandedEdge x.2 r σ).percolate with
      | ok e => simp [hp, hc, Except.map] at hr
      | error err' =>
        obtain ⟨hloc, hpart⟩ :=
          partly_expanded hg (grown_matches hg hx.1) hx.2 hmem hu
        obtain ⟨first, count, a, hspan, ha, hm⟩ := dies_of_percolate hloc hpart hc
        exact ⟨_, first, count, a, err', hspan, ha, hm⟩
  · obtain ⟨r, hrule⟩ := rule_of_active (grown_matches hg hx.1) hx.2
    have he' : (combineEdge x.2 y.2).map (Option.map (Prod.mk (attach x.1 y.1))) =
        .error err := he
    rcases combineEdge_cases (b := y.2) hrule with hn | ⟨σ, hnext, hu, hp⟩
    · simp [hn, Except.map] at he'
    · cases hc : (combinedEdge x.2 y.2 r σ).percolate with
      | ok e => simp [hp, hc, Except.map] at he'
      | error err' =>
        obtain ⟨hloc, hpart⟩ := partly_combined (grown_matches hg hx.1) hx.2
          (grown_matches hg hy.1) hy.2 hrule hnext hu
        obtain ⟨first, count, a, hspan, ha, hm⟩ := dies_of_percolate hloc hpart hc
        exact ⟨_, first, count, a, err', hspan, ha, hm⟩

end Failing

/-! ### The answer -/

section Answer

/-- The edges taken for the answer are those of the derivations. -/
theorem isComplete_iff (hg : Accepted g)
    (hx : (treeParser g).Inactive (firstItems g (tokens forms)) x) :
    isComplete g (lastPosition (tokens forms)) x.2 = true ↔ IsDerivation g forms x.1 := by
  have hreads := (grown_matches hg hx.1).inactive hx.2
  obtain ⟨first, count, u, v, hspan, hu, hue, hv, hve⟩ := (grown_matches hg hx.1).located
  have hlen : first + count < forms.length := by
    have hlt := (List.getElem?_eq_some_iff.mp hv).1
    rwa [tokens, length_tokensFrom] at hlt
  obtain ⟨z, hz⟩ : ∃ z, (tokens forms)[0]? = some z := by
    refine ⟨_, List.getElem?_eq_getElem ?_⟩
    rw [tokens, length_tokensFrom]
    omega
  obtain ⟨w, hw⟩ : ∃ w, (tokens forms)[forms.length - 1]? = some w := by
    refine ⟨_, List.getElem?_eq_getElem ?_⟩
    rw [tokens, length_tokensFrom]
    omega
  have hz0 : z.fromPos = 0 := getElem?_tokensFrom_zero hz
  have hw0 := lastPosition_tokens hw
  have hfirst : x.2.fromPos = 0 ↔ first = 0 := by
    rw [← hue]
    constructor
    · intro h
      exact fromPos_injective hu hz (h.trans hz0.symm)
    · rintro rfl
      exact getElem?_tokensFrom_zero hu
  have hlast : x.2.toPos = lastPosition (tokens forms) ↔ first + count = forms.length - 1 := by
    rw [hw0, ← hve]
    constructor
    · exact toPos_injective hv hw
    · intro h
      rw [h, hw, Option.some.injEq] at hv
      rw [hv]
  have hroot : isRoot g x.2 = true ↔ ∃ a, x.1.analyse g forms = some a ∧
      (unify g.root a.label Substitution.new a.substitution).isSome := by
    rw [show x.1.analyse g forms = _ from hreads]
    simp [isRoot]
  simp only [isComplete, Bool.and_eq_true, beq_iff_eq, hroot, hfirst, hlast, IsDerivation,
    Tree.Spans]
  simp only [Tree.Spans] at hspan
  rw [hspan]
  constructor
  · rintro ⟨⟨ha, rfl⟩, hcount⟩
    exact ⟨by rw [show count + 1 = forms.length by omega], ha⟩
  · rintro ⟨hrange, ha⟩
    have hcount : count + 1 = forms.length := by
      simpa using congrArg List.length hrange
    rw [← hcount, List.range'_succ, List.range'_succ, List.cons.injEq] at hrange
    exact ⟨⟨ha, hrange.1⟩, by omega⟩

/-- The parser runs as the grower of trees does. -/
theorem parse_eq {fuel : ℕ} {r : Except String (Chart (Item M))}
    (h : (treeParser g).run fuel (firstItems g (tokens forms)) ⟨[], []⟩ = some r) :
    parse fuel g (tokens forms) =
      some (r.bind fun c => responses g (lastPosition (tokens forms)) (c.map Prod.snd)) := by
  have hrun := (parser_mirrors g).run fuel (firstItems g (tokens forms)) ⟨[], []⟩
  rw [map_snd_firstItems, h] at hrun
  rw [parse, show (⟨[], []⟩ : Chart (Edge M)) = Chart.map Prod.snd ⟨[], []⟩ from rfl, hrun]
  cases r with
  | error e => rfl
  | ok c => rfl

/-- A list of calls that return goes on with their results. -/
theorem forall₂_of_mapM {A B E : Type} {f : A → Except E B} {l : List A} {bs : List B}
    (h : l.mapM f = .ok bs) : List.Forall₂ (fun a b => f a = .ok b) l bs := by
  induction l generalizing bs with
  | nil =>
    simp only [List.mapM_nil, pure, Except.pure, Except.ok.injEq] at h
    exact h ▸ List.Forall₂.nil
  | cons a l ih =>
    cases ha : f a with
    | error e => simp [ha, bind, Except.bind] at h
    | ok b =>
      cases hl : l.mapM f with
      | error e => simp [ha, hl, bind, Except.bind] at h
      | ok cs =>
        simp only [List.mapM_cons, ha, hl, bind, Except.bind, pure, Except.pure,
          Except.ok.injEq] at h
        exact h ▸ List.Forall₂.cons ha (ih hl)

theorem ok_of_mapM {A B E : Type} {f : A → Except E B} {l : List A} {bs : List B}
    (h : l.mapM f = .ok bs) : ∀ a ∈ l, ∃ b, f a = .ok b := by
  have hall := forall₂_of_mapM h
  clear h
  induction hall with
  | nil => simp
  | cons h _ ih =>
    rw [List.forall_mem_cons]
    exact ⟨⟨_, h⟩, ih⟩

theorem error_of_mapM {A B E : Type} {f : A → Except E B} {l : List A} {e : E}
    (h : l.mapM f = .error e) : ∃ a ∈ l, f a = .error e := by
  induction l with
  | nil => simp [pure, Except.pure] at h
  | cons a l ih =>
    rw [List.exists_mem_cons_iff]
    cases ha : f a with
    | error e' =>
      simp only [List.mapM_cons, ha, bind, Except.bind, Except.error.injEq] at h
      exact Or.inl (congrArg _ h)
    | ok b =>
      cases hl : l.mapM f with
      | error e' =>
        simp only [List.mapM_cons, ha, hl, bind, Except.bind, Except.error.injEq] at h
        exact Or.inr (ih (hl.trans (congrArg _ h)))
      | ok cs => simp [ha, hl, bind, Except.bind, pure, Except.pure] at h

/-- The items of the derivations, in the order of the chart. -/
def completeItems (g : Grammar M R) (forms : List String) (c : Chart (Item M)) :
    List (Item M) :=
  c.inactive.filter fun x => isComplete g (lastPosition (tokens forms)) x.2

theorem responses_map (c : Chart (Item M)) :
    responses g (lastPosition (tokens forms)) (c.map Prod.snd) =
      (completeItems g forms c).mapM fun x => g.response x.2.node.meaning := by
  rw [responses, Chart.map, List.filter_map, List.mapM_map]
  rfl

variable {c : Chart (Item M)}

theorem mem_completeItems (hg : Accepted g)
    (hc : (treeParser g).Ends (firstItems g (tokens forms)) (.ok c)) :
    x ∈ completeItems g forms c ↔
      (treeParser g).Inactive (firstItems g (tokens forms)) x ∧ IsDerivation g forms x.1 := by
  obtain ⟨-, -, -, hinactive⟩ := hc
  rw [completeItems, List.mem_filter, hinactive]
  exact and_congr_right fun hx => isComplete_iff hg hx

/-- Every derivation is in the chart, under one item. -/
theorem mem_trees (hg : Accepted g)
    (hc : (treeParser g).Ends (firstItems g (tokens forms)) (.ok c)) :
    t ∈ (completeItems g forms c).map Prod.fst ↔ IsDerivation g forms t := by
  rw [List.mem_map]
  constructor
  · rintro ⟨x, hx, rfl⟩
    exact ((mem_completeItems hg hc).mp hx).2
  · intro ht
    have ⟨hspan, a, ha, _⟩ := ht
    obtain ⟨e, he⟩ := found hg hc.1 t a 0 forms.length ha hspan
    exact ⟨(t, e), (mem_completeItems hg hc).mpr ⟨he, ht⟩, rfl⟩

theorem nodup_trees (hg : Accepted g)
    (hc : (treeParser g).Ends (firstItems g (tokens forms)) (.ok c)) :
    ((completeItems g forms c).map Prod.fst).Nodup := by
  have hinactive : c.inactive.Nodup := List.Nodup.of_append_right hc.2.1
  refine (List.nodup_map_iff_inj_on (hinactive.filter _)).mpr fun x hx y hy h => ?_
  exact item_unique hg ((mem_completeItems hg hc).mp hx).1.1
    ((mem_completeItems hg hc).mp hy).1.1 h

/-- With all the edges in the chart no callback has died, so only the wrapper can. -/
theorem dies_iff_of_ends (hg : Accepted g)
    (hc : (treeParser g).Ends (firstItems g (tokens forms)) (.ok c)) :
    Dies g forms ↔ ∃ x ∈ completeItems g forms c, ∃ e,
      g.response x.2.node.meaning = .error e := by
  constructor
  · rintro (⟨t, first, count, a, e, hspan, ha, hm⟩ | ⟨t, a, e, ht, ha, hm⟩)
    · obtain ⟨e', he'⟩ := found hg hc.1 t a first count ha hspan
      rw [analysis_eq hg he' ha] at hm
      cases hm
    · obtain ⟨e', he'⟩ := found hg hc.1 t a 0 forms.length ha ht.1
      rw [analysis_eq hg he' ha] at hm
      exact ⟨(t, e'), (mem_completeItems hg hc).mpr ⟨he', ht⟩, e, hm⟩
  · rintro ⟨x, hx, e, he⟩
    obtain ⟨hi, ht⟩ := (mem_completeItems hg hc).mp hx
    exact Or.inr ⟨x.1, _, e, ht, (grown_matches hg hi.1).inactive hi.2, he⟩

/-- The entries of the answer stand for the trees, one by one. -/
theorem entries_of_mapM (hg : Accepted g)
    (hc : (treeParser g).Ends (firstItems g (tokens forms)) (.ok c)) {answer : List R}
    (h : (completeItems g forms c).mapM (fun x => g.response x.2.node.meaning) =
      .ok answer) :
    List.Forall₂ (Entry g forms) ((completeItems g forms c).map Prod.fst) answer := by
  rw [List.forall₂_map_left_iff]
  have hall : ∀ x ∈ completeItems g forms c, Reads g forms x.1 x.2 := by
    intro x hx
    obtain ⟨hi, -⟩ := (mem_completeItems hg hc).mp hx
    exact (grown_matches hg hi.1).inactive hi.2
  have hpairs := (List.forall₂_and_left _ _).mpr ⟨hall, forall₂_of_mapM h⟩
  exact hpairs.imp fun x r hx => ⟨_, hx.1, hx.2⟩

/-- How the parser comes to its end: with an entry for each derivation and no reason to die,
or with an error and one. -/
theorem answers (hg : Accepted g) (forms : List String) :
    (¬ Dies g forms ∧ ReturnsAll g forms) ∨ (Dies g forms ∧ ParserDies g forms) := by
  have hunambiguous : (treeParser g).Unambiguous (firstItems g (tokens forms)) :=
    unambiguous hg
  obtain ⟨r, hends, hrun⟩ := Grower.run_result hunambiguous (bounded hg)
  have hparse := fun fuel hfuel => parse_eq (hrun fuel hfuel)
  cases r with
  | error e => exact .inr ⟨.inl (dies_of_fails hg hends), e, _, hparse⟩
  | ok c =>
    simp only [Except.bind, responses_map] at hparse
    cases hanswer : (completeItems g forms c).mapM fun x => g.response x.2.node.meaning with
    | error e =>
      obtain ⟨x, hx, he⟩ := error_of_mapM hanswer
      rw [hanswer] at hparse
      exact .inr ⟨(dies_iff_of_ends hg hends).mpr ⟨x, hx, e, he⟩, e, _, hparse⟩
    | ok answer =>
      rw [hanswer] at hparse
      refine .inl ⟨fun hdies => ?_, answer, (completeItems g forms c).map Prod.fst,
        ⟨_, hparse⟩, nodup_trees hg hends, fun t => mem_trees hg hends,
        entries_of_mapM hg hends hanswer⟩
      obtain ⟨x, hx, e, he⟩ := (dies_iff_of_ends hg hends).mp hdies
      obtain ⟨b, hb⟩ := ok_of_mapM hanswer x hx
      rw [he] at hb
      cases hb

/-- In an accepted grammar the parser terminates on every list of tokens. It returns exactly
one entry for each derivation, unless a callback dies on a constituent or the wrapper
refuses the meaning of a derivation. -/
theorem parse_returns_or_dies (g : Grammar M R) (forms : List String) (hg : Accepted g) :
    (¬ Dies g forms → ReturnsAll g forms) ∧ (Dies g forms → ParserDies g forms) := by
  rcases answers hg forms with ⟨hlives, hreturns⟩ | ⟨hdies, hparser⟩
  · exact ⟨fun _ => hreturns, fun h => absurd h hlives⟩
  · exact ⟨fun h => absurd hdies h, fun _ => hparser⟩

/-- The answer of the parser is this one entry. -/
def Single (g : Grammar M R) (forms : List String) (r : R) : Prop :=
  ∃ N, ∀ fuel, N < fuel → parse fuel g (tokens forms) = some (.ok [r])

theorem entry_unique {t : Tree} {r r' : R} (h : Entry g forms t r) (h' : Entry g forms t r') :
    r = r' := by
  obtain ⟨a, ha, hr⟩ := h
  obtain ⟨a', ha', hr'⟩ := h'
  obtain rfl := Option.some.inj (ha.symm.trans ha')
  exact Except.ok.inj (hr.symm.trans hr')

/-- One entry stands for one derivation. -/
theorem single_iff (hg : Accepted g) {r : R} : Single g forms r ↔ ¬ Dies g forms ∧
    ∃ t, (∀ t', IsDerivation g forms t' ↔ t' = t) ∧ Entry g forms t r := by
  constructor
  · rintro ⟨N, hN⟩
    rcases answers hg forms with
      ⟨hlives, answer, trees, ⟨N', hN'⟩, -, hmem, hentries⟩ | ⟨-, e, N', hN'⟩
    · have hboth := (hN' (N + N' + 1) (by omega)).symm.trans (hN (N + N' + 1) (by omega))
      obtain rfl : answer = [r] := by simpa using hboth
      obtain ⟨t, ts, hentry, hnil, rfl⟩ := List.forall₂_cons_right_iff.mp hentries
      obtain rfl := List.forall₂_nil_right_iff.mp hnil
      exact ⟨hlives, t, fun t' => (hmem t').symm.trans List.mem_singleton, hentry⟩
    · have hboth := (hN' (N + N' + 1) (by omega)).symm.trans (hN (N + N' + 1) (by omega))
      simp at hboth
  · rintro ⟨hlives, t, ht, hentry⟩
    obtain ⟨answer, trees, ⟨N, hN⟩, hnodup, hmem, hentries⟩ :=
      (answers hg forms).resolve_right (fun h => hlives h.1) |>.2
    obtain rfl : trees = [t] := by
      have hperm : trees.Perm [t] := (List.perm_ext_iff_of_nodup hnodup
        (List.nodup_singleton t)).mpr fun t' => by rw [hmem, ht, List.mem_singleton]
      exact List.perm_singleton.mp hperm
    obtain ⟨r', rs, hentry', hnil, rfl⟩ := List.forall₂_cons_left_iff.mp hentries
    obtain rfl := List.forall₂_nil_left_iff.mp hnil
    exact ⟨N, entry_unique hentry hentry' ▸ hN⟩

end Answer

/-! ### Some productions of the command line -/

section Requests

def pair (key : String) (m : Option Value) : List (String × Value) :=
  m.toList.map (Prod.mk key)

/-- The productions that read `vm get`. -/
def requestRules : List (Rule Value) := [
  { leftSide := [("label", "CMD"), ("saturated", "0")]
    rightSide := [[("label", "get"), ("saturated", "1"), ("order", "1"), ("of", "1"),
      ("to", "0"), ("with", "0")]]
    meaning := fun _ => .ok (some (.scalar "get")) },
  { leftSide := [("label", "CMD"), ("saturated", "1"), ("order", "#order"), ("of", "#of"),
      ("to", "#to"), ("with", "#with")]
    rightSide := [[("label", "QVD_OBJECT"), ("saturated", "1")],
      [("label", "CMD"), ("saturated", "0"), ("order", "#order"), ("of", "#of"),
        ("to", "#to"), ("with", "#with")]]
    meaning := fun ms => .ok (some (.hash
      (pair "command" ms[1]?.join ++ pair "obj1" ms[0]?.join))) },
  { leftSide := [("label", "QVD_OBJECT"), ("saturated", "0")]
    rightSide := [[("label", "vm"), ("saturated", "1")]]
    meaning := fun _ => .ok (some (.scalar "vm")) },
  { leftSide := [("label", "QVD_OBJECT"), ("saturated", "1")]
    rightSide := [[("label", "QVD_OBJECT"), ("saturated", "0")]]
    meaning := fun ms => .ok (some (.hash (pair "qvd_object" ms[0]?.join))) },
  { leftSide := [("label", "ROOT"), ("saturated", "1")]
    rightSide := [[("label", "CMD"), ("saturated", "1"), ("order", "0"), ("in", "0"),
      ("of", "0"), ("to", "0"), ("with", "0")]]
    meaning := fun ms => .ok ms[0]?.join }]

def requestGrammar : Grammar Value Response := Grammar.ofRules requestRules

theorem requestGrammar_accepted : Accepted requestGrammar :=
  accepted_of_rank id (by decide) (by decide)

theorem parse_returns_or_dies_vm_get : Accepted requestGrammar ∧
    (¬ Dies requestGrammar ["vm", "get"] → ReturnsAll requestGrammar ["vm", "get"]) ∧
    (Dies requestGrammar ["vm", "get"] → ParserDies requestGrammar ["vm", "get"]) :=
  ⟨requestGrammar_accepted, parse_returns_or_dies _ _ requestGrammar_accepted⟩

theorem parse_of_le {fuel fuel' : ℕ} (hle : fuel ≤ fuel') {toks : List Token}
    {r : Except String (List R)} (h : parse fuel g toks = some r) :
    parse fuel' g toks = some r := by
  obtain ⟨chart, hrun, rfl⟩ := Option.map_eq_some_iff.mp h
  exact Option.map_eq_some_iff.mpr ⟨chart, Grower.run_of_le hle hrun, rfl⟩

/-- `CMD` is a tag of the grammar, so the word is a command with a string for its meaning.
The wrapper only takes hashes, and the parser dies over the one derivation. -/
theorem parser_dies_cmd :
    Accepted requestGrammar ∧ ¬ ReturnsAll requestGrammar ["CMD"] := by
  refine ⟨requestGrammar_accepted, ?_⟩
  rintro ⟨answer, -, ⟨N, hN⟩, -⟩
  have hrun : (parse 4 requestGrammar (tokens ["CMD"])).map (fun r => r.toOption.isSome) =
      some false := by decide
  obtain ⟨r, hr, hnone⟩ := Option.map_eq_some_iff.mp hrun
  have hlarge := parse_of_le (Nat.le_add_left 4 (N + 1)) hr
  rw [hN (N + 1 + 4) (by omega), Option.some.injEq] at hlarge
  rw [← hlarge] at hnone
  cases hnone

end Requests

end Qvd.ChartCompleteness
