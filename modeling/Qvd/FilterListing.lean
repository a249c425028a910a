import Qvd.FilterPlaces

/-!
The paths that a filter object lists, each with the place of its leaf. The leaves of a level come
from the last to the first and before those of its groups, so that no later path is for a leaf that
stands behind the current one at its level.
-/
namespace Qvd.FilterListing

open NumberedPath RestFilter FilterPaths FilterContext FilterNodes FilterPlaces Occurrences

section Listing

/-- The leaves of a level with their components and indices, after the keys seen before. -/
def leafEntries : Filters → List Text → ℕ → List (Text × ℕ)
  | .nil, _, _ => []
  | .leaf key _ _ rest, seen, i =>
    (numbered key (seen.count key + 1), i) :: leafEntries rest (key :: seen) (i + 1)
  | .group key _ rest, seen, i => leafEntries rest (key :: seen) (i + 1)

/-- The leaves below the groups of a level with their paths and places. -/
def groupEntries : Filters → List Text → ℕ → List (List Text × Loc)
  | .nil, _, _ => []
  | .leaf key _ _ rest, seen, i => groupEntries rest (key :: seen) (i + 1)
  | .group key items rest, seen, i =>
    ((leafEntries items [] 0).reverse.map (fun e => ([e.1], [e.2])) ++ groupEntries items [] 0).map
      (fun e => (numbered key (seen.count key + 1) :: e.1, i :: e.2)) ++
        groupEntries rest (key :: seen) (i + 1)

def listing (f : Filters) : List (List Text × Loc) :=
  (leafEntries f [] 0).reverse.map (fun e => ([e.1], [e.2])) ++ groupEntries f [] 0

theorem leafEntries_fst (f : Filters) (seen : List Text) (i : ℕ) :
    (leafEntries f seen i).map Prod.fst = leafNodes f seen := by
  induction f generalizing seen i with
  | nil => rfl
  | leaf key op values rest ih => exact congrArg (_ :: ·) (ih _ _)
  | group key items rest _ ih => exact ih _ _

theorem groupEntries_fst (f : Filters) (seen : List Text) (i : ℕ) :
    (groupEntries f seen i).map Prod.fst = groupPaths f seen := by
  induction f generalizing seen i with
  | nil => rfl
  | leaf key op values rest ih => exact ih _ _
  | group key items rest ihitems ih =>
    rw [groupEntries, groupPaths, List.map_append, ih, List.map_map, ← ihitems [] 0,
      ← leafEntries_fst items [] 0]
    simp [Function.comp_def]

/-- Its paths are those of the code. -/
theorem listing_fst (f : Filters) : (listing f).map Prod.fst = levelPaths f := by
  rw [listing, levelPaths, List.map_append, groupEntries_fst, ← leafEntries_fst f [] 0]
  simp [Function.comp_def]

end Listing

section Written

/-- The path that is written for the leaf at a place. -/
inductive Written : Filters → List Text → Loc → Prop
  | leaf {f : Filters} {i : ℕ} {key op : Text} {values : List Json}
      (h : levelNode f i = some (.leaf key op values)) :
      Written f [numbered key ((f.keys.take i).count key + 1)] [i]
  | group {f items : Filters} {i : ℕ} {key : Text} {nodes : List Text} {loc : Loc}
      (h : levelNode f i = some (.group key)) (hitems : f.itemsAt i = some items)
      (hrest : Written items nodes loc) :
      Written f (numbered key ((f.keys.take i).count key + 1) :: nodes) (i :: loc)

theorem levelNode_append (before g : Filters) (i : ℕ) :
    levelNode (before.append g) (before.keys.length + i) = levelNode g i := by
  have hlength : before.keys.length = (entries before).length := by rw [keys_eq, List.length_map]
  unfold levelNode
  rw [entries_append, hlength, List.getElem?_append_right (Nat.le_add_right _ _),
    Nat.add_sub_cancel_left]

variable {before : Filters} {seen : List Text}

theorem keys_take (before g : Filters) :
    (before.append g).keys.take before.keys.length = before.keys := by
  rw [keys_append, List.take_left]

/-- One more node before the others. -/
theorem seen_cons {key : Text} (node : Filters) (hnode : node.keys = [key])
    (hseen : ∀ key, seen.count key = before.keys.count key) (other : Text) :
    (key :: seen).count other = (before.append node).keys.count other := by
  rw [keys_append, hnode, List.count_append, List.count_cons, List.count_singleton, hseen]

theorem length_cons {key : Text} {node : Filters} (hnode : node.keys = [key]) :
    (before.append node).keys.length = before.keys.length + 1 := by
  rw [keys_append, hnode, List.length_append]
  rfl

theorem mem_leafEntries (g before : Filters) (seen : List Text)
    (hseen : ∀ key, seen.count key = before.keys.count key) (component : Text) (i : ℕ) :
    (component, i) ∈ leafEntries g seen before.keys.length ↔
      before.keys.length ≤ i ∧ ∃ key op values,
        levelNode (before.append g) i = some (.leaf key op values) ∧
          component = numbered key (((before.append g).keys.take i).count key + 1) := by
  induction g generalizing seen before with
  | nil =>
    refine iff_of_false List.not_mem_nil ?_
    rintro ⟨hle, key, op, values, hnode, -⟩
    obtain ⟨k, rfl⟩ := Nat.exists_eq_add_of_le hle
    rw [levelNode_append] at hnode
    cases hnode
  | leaf key op values rest ih =>
    have hnode : levelNode (before.append (.leaf key op values rest)) before.keys.length =
        some (.leaf key op values) := levelNode_append before _ 0
    have hrest := ih _ _ (seen_cons (.leaf key op values .nil) rfl hseen)
    rw [length_cons rfl, append_assoc] at hrest
    rw [leafEntries, List.mem_cons, hrest]
    constructor
    · rintro (hfirst | ⟨hle, hlater⟩)
      · obtain ⟨rfl, rfl⟩ := Prod.mk.inj hfirst
        exact ⟨Nat.le_refl _, key, op, values, hnode, by rw [keys_take, hseen]⟩
      · exact ⟨Nat.le_of_succ_le hle, hlater⟩
    · rintro ⟨hle, key', op', values', hnode', rfl⟩
      obtain rfl | hlt := Nat.eq_or_lt_of_le hle
      · obtain ⟨rfl, rfl, rfl⟩ := Node.leaf.inj (Option.some.inj (hnode.symm.trans hnode'))
        exact .inl (by rw [keys_take, hseen])
      · exact .inr ⟨hlt, key', op', values', hnode', rfl⟩
  | group key items rest _ ih =>
    have hnode : levelNode (before.append (.group key items rest)) before.keys.length =
        some (.group key) := levelNode_append before _ 0
    have hrest := ih _ _ (seen_cons (.group key items .nil) rfl hseen)
    rw [length_cons rfl, append_assoc] at hrest
    rw [leafEntries, hrest]
    refine and_congr_left fun ⟨key', op', values', hnode', _⟩ => ⟨Nat.le_of_succ_le, ?_⟩
    intro hle
    refine Nat.lt_of_le_of_ne hle ?_
    rintro rfl
    cases hnode.symm.trans hnode'

theorem Written.ne_nil {f : Filters} {nodes : List Text} {loc : Loc} (h : Written f nodes loc) :
    loc ≠ [] := by
  cases h <;> exact List.cons_ne_nil _ _

theorem mem_leaves (f : Filters) (nodes : List Text) (loc : Loc) :
    (nodes, loc) ∈ (leafEntries f [] 0).reverse.map (fun e => ([e.1], [e.2])) ↔
      (∃ i, loc = [i]) ∧ Written f nodes loc := by
  have hmem (component : Text) (i : ℕ) :
      (component, i) ∈ leafEntries f [] Filters.nil.keys.length ↔ _ :=
    mem_leafEntries f .nil [] (fun _ => rfl) component i
  rw [List.mem_map]
  constructor
  · rintro ⟨⟨component, i⟩, he, heq⟩
    obtain ⟨rfl, rfl⟩ := Prod.mk.inj heq
    obtain ⟨-, key, op, values, hnode, rfl⟩ := (hmem component i).mp (List.mem_reverse.mp he)
    exact ⟨⟨i, rfl⟩, .leaf hnode⟩
  · rintro ⟨⟨i, rfl⟩, hwritten⟩
    cases hwritten with
    | @leaf _ _ key op values hnode =>
      exact ⟨(_, i), List.mem_reverse.mpr
        ((hmem _ i).mpr ⟨Nat.zero_le i, key, op, values, hnode, rfl⟩), rfl⟩
    | group hnode hitems hrest => exact absurd rfl hrest.ne_nil

/-- A leaf of the level, or one below a group. -/
theorem written_or {f : Filters} {nodes : List Text} {loc : Loc} :
    (∃ i, loc = [i]) ∧ Written f nodes loc ∨
      (∃ i j inner, loc = i :: j :: inner ∧ 0 ≤ i) ∧ Written f nodes loc ↔
      Written f nodes loc := by
  constructor
  · rintro (⟨-, h⟩ | ⟨-, h⟩) <;> exact h
  · intro h
    match loc, h.ne_nil with
    | [i], _ => exact .inl ⟨⟨i, rfl⟩, h⟩
    | i :: j :: rest, _ => exact .inr ⟨⟨i, j, rest, rfl, Nat.zero_le i⟩, h⟩

theorem written_group {f : Filters} {nodes : List Text} {i j : ℕ} {inner : Loc} :
    Written f nodes (i :: j :: inner) ↔ ∃ key items nodes', levelNode f i = some (.group key) ∧
      f.itemsAt i = some items ∧ Written items nodes' (j :: inner) ∧
        nodes = numbered key ((f.keys.take i).count key + 1) :: nodes' := by
  constructor
  · rintro (_ | ⟨hnode, hitems, hrest⟩)
    exact ⟨_, _, _, hnode, hitems, hrest, rfl⟩
  · rintro ⟨key, items, nodes', hnode, hitems, hrest, rfl⟩
    exact .group hnode hitems hrest

/-- By induction on the tree: the levels of the groups are listed as a whole. -/
theorem mem_groupEntries (g before : Filters) (seen : List Text)
    (hseen : ∀ key, seen.count key = before.keys.count key) (nodes : List Text) (loc : Loc) :
    (nodes, loc) ∈ groupEntries g seen before.keys.length ↔
      (∃ i j inner, loc = i :: j :: inner ∧ before.keys.length ≤ i) ∧
        Written (before.append g) nodes loc := by
  induction g generalizing seen before nodes loc with
  | nil =>
    refine iff_of_false List.not_mem_nil ?_
    rintro ⟨⟨i, j, inner, rfl, hle⟩, hwritten⟩
    obtain ⟨key, items, nodes', hnode, -⟩ := written_group.mp hwritten
    obtain ⟨k, rfl⟩ := Nat.exists_eq_add_of_le hle
    rw [levelNode_append] at hnode
    cases hnode
  | leaf key op values rest ih =>
    have hrest := ih _ _ (seen_cons (.leaf key op values .nil) rfl hseen) nodes loc
    rw [length_cons rfl, append_assoc] at hrest
    rw [groupEntries, hrest]
    refine and_congr_left fun hwritten => ?_
    constructor
    · rintro ⟨i, j, inner, hloc, hle⟩
      exact ⟨i, j, inner, hloc, Nat.le_of_succ_le hle⟩
    · rintro ⟨i, j, inner, rfl, hle⟩
      refine ⟨i, j, inner, rfl, Nat.lt_of_le_of_ne hle ?_⟩
      rintro rfl
      obtain ⟨key', items, nodes', hnode, -⟩ := written_group.mp hwritten
      cases (levelNode_append before (.leaf key op values rest) 0).symm.trans hnode
  | group key items rest ihitems ih =>
    have hrest := ih _ _ (seen_cons (.group key items .nil) rfl hseen) nodes loc
    rw [length_cons rfl, append_assoc] at hrest
    have hnode : levelNode (before.append (.group key items rest)) before.keys.length =
        some (.group key) := levelNode_append before _ 0
    have hitems : (before.append (.group key items rest)).itemsAt before.keys.length =
        some items := itemsAt_append before key items rest
    have hinner (nodes : List Text) (loc : Loc) : (nodes, loc) ∈
        (leafEntries items [] 0).reverse.map (fun e => ([e.1], [e.2])) ++ groupEntries items [] 0 ↔
          Written items nodes loc := by
      have hgroups : (nodes, loc) ∈ groupEntries items [] Filters.nil.keys.length ↔ _ :=
        ihitems .nil [] (fun _ => rfl) nodes loc
      rw [List.mem_append, mem_leaves]
      exact (or_congr_right hgroups).trans written_or
    rw [groupEntries, List.mem_append, hrest]
    constructor
    · rintro (hhere | ⟨⟨i, j, inner, hloc, hle⟩, hwritten⟩)
      · obtain ⟨⟨nodes', loc'⟩, he, heq⟩ := List.mem_map.mp hhere
        obtain ⟨rfl, rfl⟩ := Prod.mk.inj heq
        have hwritten := (hinner nodes' loc').mp he
        obtain ⟨j, inner, rfl⟩ := List.exists_cons_of_ne_nil hwritten.ne_nil
        refine ⟨⟨_, j, inner, rfl, Nat.le_refl _⟩, ?_⟩
        exact written_group.mpr ⟨key, items, nodes', hnode, hitems, hwritten,
          by rw [keys_take, hseen]⟩
      · exact ⟨⟨i, j, inner, hloc, Nat.le_of_succ_le hle⟩, hwritten⟩
    · rintro ⟨⟨i, j, inner, rfl, hle⟩, hwritten⟩
      obtain rfl | hlt := Nat.eq_or_lt_of_le hle
      · obtain ⟨key', items', nodes', hnode', hitems', hdeeper, rfl⟩ := written_group.mp hwritten
        obtain rfl := Node.group.inj (Option.some.inj (hnode.symm.trans hnode'))
        obtain rfl := Option.some.inj (hitems.symm.trans hitems')
        refine .inl (List.mem_map.mpr ⟨(nodes', j :: inner), (hinner _ _).mpr hdeeper, ?_⟩)
        rw [keys_take, hseen]
      · exact .inr ⟨⟨i, j, inner, rfl, hlt⟩, hwritten⟩

/-- The listing has the leaves of all levels, each with its path. -/
theorem mem_listing (f : Filters) (nodes : List Text) (loc : Loc) :
    (nodes, loc) ∈ listing f ↔ Written f nodes loc := by
  have hgroups : (nodes, loc) ∈ groupEntries f [] Filters.nil.keys.length ↔ _ :=
    mem_groupEntries f .nil [] (fun _ => rfl) nodes loc
  rw [listing, List.mem_append, mem_leaves]
  exact (or_congr_right hgroups).trans written_or

end Written

section Order

/-- The second place is on the level of the first one, there or behind it. -/
def Behind (p q : Loc) : Prop :=
  ∃ up i j, p = up ++ [i] ∧ q = up ++ [j] ∧ i ≤ j

theorem behind_singleton {i : ℕ} {q : Loc} (h : Behind [i] q) : ∃ j, q = [j] ∧ i ≤ j := by
  obtain ⟨up, i', j, hi, rfl, hle⟩ := h
  cases up with
  | nil =>
    obtain rfl := List.singleton_inj.mp hi
    exact ⟨j, rfl, hle⟩
  | cons k up => cases up <;> cases hi

theorem behind_cons {i j k : ℕ} {p q : Loc} (h : Behind (i :: k :: p) (j :: q)) :
    i = j ∧ Behind (k :: p) q := by
  obtain ⟨up, i', j', hi, hj, hle⟩ := h
  cases up with
  | nil => cases hi
  | cons m up =>
    obtain ⟨rfl, hp⟩ := List.cons.inj hi
    obtain ⟨rfl, hq⟩ := List.cons.inj hj
    exact ⟨rfl, up, i', j', hp, hq, hle⟩

theorem leafEntries_increasing (f : Filters) (seen : List Text) (i : ℕ) :
    (leafEntries f seen i).Pairwise (fun a b => a.2 < b.2) ∧
      ∀ e ∈ leafEntries f seen i, i ≤ e.2 := by
  induction f generalizing seen i with
  | nil => exact ⟨.nil, fun _ h => (List.not_mem_nil h).elim⟩
  | leaf key op values rest ih =>
    obtain ⟨hpairs, hle⟩ := ih (key :: seen) (i + 1)
    refine ⟨List.pairwise_cons.mpr ⟨fun e he => hle e he, hpairs⟩, ?_⟩
    exact List.forall_mem_cons.mpr ⟨Nat.le_refl i, fun e he => Nat.le_of_succ_le (hle e he)⟩
  | group key items rest _ ih =>
    obtain ⟨hpairs, hle⟩ := ih (key :: seen) (i + 1)
    exact ⟨hpairs, fun e he => Nat.le_of_succ_le (hle e he)⟩

/-- The leaves of a level come from the last to the first. -/
theorem leaves_pairwise (f : Filters) :
    ((leafEntries f [] 0).reverse.map (fun e => (([e.1] : List Text), ([e.2] : Loc)))).Pairwise
      fun p q => ¬ Behind p.2 q.2 := by
  rw [List.pairwise_map, List.pairwise_reverse]
  refine (leafEntries_increasing f [] 0).1.imp fun {a b} hlt hbehind => ?_
  obtain ⟨j, hj, hle⟩ := behind_singleton hbehind
  obtain rfl := List.singleton_inj.mp hj
  omega

/-- Those below the groups come after them. -/
theorem level_pairwise (f : Filters)
    (hpairs : (groupEntries f [] 0).Pairwise fun p q => ¬ Behind p.2 q.2)
    (hform : ∀ e ∈ groupEntries f [] 0, ∃ j k inner, e.2 = j :: k :: inner ∧ 0 ≤ j) :
    (listing f).Pairwise fun p q => ¬ Behind p.2 q.2 := by
  refine List.pairwise_append.mpr ⟨leaves_pairwise f, hpairs, ?_⟩
  intro a ha b hb hbehind
  obtain ⟨e, -, rfl⟩ := List.mem_map.mp ha
  obtain ⟨j, k, inner, heq, -⟩ := hform b hb
  obtain ⟨j', hj', -⟩ := behind_singleton hbehind
  rw [heq] at hj'
  cases hj'

theorem groupEntries_pairwise (f : Filters) (seen : List Text) (i : ℕ) :
    (groupEntries f seen i).Pairwise (fun p q => ¬ Behind p.2 q.2) ∧
      ∀ e ∈ groupEntries f seen i, ∃ j k inner, e.2 = j :: k :: inner ∧ i ≤ j := by
  induction f generalizing seen i with
  | nil => exact ⟨.nil, fun _ h => (List.not_mem_nil h).elim⟩
  | leaf key op values rest ih =>
    obtain ⟨hpairs, hform⟩ := ih (key :: seen) (i + 1)
    refine ⟨hpairs, fun e he => ?_⟩
    obtain ⟨j, k, inner, heq, hle⟩ := hform e he
    exact ⟨j, k, inner, heq, Nat.le_of_succ_le hle⟩
  | group key items rest ihitems ih =>
    obtain ⟨hpairs, hform⟩ := ih (key :: seen) (i + 1)
    have hitems := level_pairwise items (ihitems [] 0).1 (ihitems [] 0).2
    have hhere (e : List Text × Loc) (he : e ∈ listing items) : ∃ k inner, e.2 = k :: inner :=
      List.exists_cons_of_ne_nil ((mem_listing items e.1 e.2).mp he).ne_nil
    constructor
    · refine List.pairwise_append.mpr ⟨?_, hpairs, ?_⟩
      · rw [List.pairwise_map]
        refine hitems.imp_of_mem fun {a b} ha _ hnot hbehind => hnot ?_
        obtain ⟨k, inner, heq⟩ := hhere a ha
        change Behind (i :: a.2) (i :: b.2) at hbehind
        rw [heq] at hbehind ⊢
        exact (behind_cons hbehind).2
      · intro a ha b hb hbehind
        obtain ⟨e, he, rfl⟩ := List.mem_map.mp ha
        obtain ⟨k, inner, heq⟩ := hhere e he
        obtain ⟨j, k', inner', hb', hlt⟩ := hform b hb
        rw [hb', heq] at hbehind
        have hsame := (behind_cons hbehind).1
        omega
    · intro e he
      obtain hfirst | hlater := List.mem_append.mp he
      · obtain ⟨e', he', rfl⟩ := List.mem_map.mp hfirst
        obtain ⟨k, inner, heq⟩ := hhere e' he'
        exact ⟨i, k, inner, congrArg (i :: ·) heq, Nat.le_refl i⟩
      · obtain ⟨j, k, inner, heq, hlt⟩ := hform e hlater
        exact ⟨j, k, inner, heq, Nat.le_of_succ_le hlt⟩

/-- No later path is for a leaf that stands behind the current one at its level. -/
theorem listing_pairwise (f : Filters) : (listing f).Pairwise fun p q => ¬ Behind p.2 q.2 :=
  level_pairwise f (groupEntries_pairwise f [] 0).1 (groupEntries_pairwise f [] 0).2

end Order

section Leaves

variable {f items : Filters} {nodes : List Text} {loc : Loc} {i : ℕ}

/-- A comparison with the key stands at the place. -/
def IsLeaf (f : Filters) (key : Text) (loc : Loc) : Prop :=
  ∃ op values, nodeAt f loc = some (.leaf key op values)

theorem nodeAt_of_items (h : f.itemsAt i = some items) (hne : loc ≠ []) :
    nodeAt f (i :: loc) = nodeAt items loc := by
  obtain ⟨j, inner, rfl⟩ := List.exists_cons_of_ne_nil hne
  exact congrArg (Option.bind · _) h

theorem isLeaf_of_items (h : f.itemsAt i = some items) {key : Text}
    (hleaf : IsLeaf items key loc) : IsLeaf f key (i :: loc) := by
  obtain ⟨op, values, hnode⟩ := hleaf
  refine ⟨op, values, (nodeAt_of_items h ?_).trans hnode⟩
  rintro rfl
  cases hnode

/-- The groups of a tree have operators for keys, and its leaves have not. -/
theorem wellFormed_entries (hf : WellFormed f) : ∀ entry ∈ entries f,
    (∀ key op values, entry.1 = .leaf key op values → key ∉ logicalOperators) ∧
      (∀ key, entry.1 = .group key → key ∈ logicalOperators) ∧
        ∀ items, entry.2 = some items → WellFormed items := by
  induction f with
  | nil => exact fun _ h => (List.not_mem_nil h).elim
  | leaf key op values rest ih =>
    refine List.forall_mem_cons.mpr ⟨⟨?_, ?_, ?_⟩, ih hf.2⟩
    · rintro _ _ _ ⟨⟩
      exact hf.1
    · rintro _ ⟨⟩
    · rintro _ ⟨⟩
  | group key items rest _ ih =>
    refine List.forall_mem_cons.mpr ⟨⟨?_, ?_, ?_⟩, ih hf.2.2⟩
    · rintro _ _ _ ⟨⟩
    · rintro _ ⟨⟩
      exact hf.1
    · rintro _ ⟨⟩
      exact hf.2.1

theorem not_logical (hf : WellFormed f) {key op : Text} {values : List Json}
    (h : levelNode f i = some (.leaf key op values)) : key ∉ logicalOperators := by
  obtain ⟨entry, hentry, hnode⟩ := Option.map_eq_some_iff.mp h
  exact (wellFormed_entries hf entry (List.mem_of_getElem? hentry)).1 _ _ _ hnode

theorem logical (hf : WellFormed f) {key : Text} (h : levelNode f i = some (.group key)) :
    key ∈ logicalOperators := by
  obtain ⟨entry, hentry, hnode⟩ := Option.map_eq_some_iff.mp h
  exact (wellFormed_entries hf entry (List.mem_of_getElem? hentry)).2.1 _ hnode

theorem wellFormed_items (hf : WellFormed f) (h : f.itemsAt i = some items) :
    WellFormed items := by
  rw [itemsAt_eq] at h
  obtain ⟨entry, hentry, hitems⟩ := Option.bind_eq_some_iff.mp h
  exact (wellFormed_entries hf entry (List.mem_of_getElem? hentry)).2.2 _ hitems

theorem Written.isLeaf (h : Written f nodes loc) : ∃ key, IsLeaf f key loc := by
  induction h with
  | leaf h => exact ⟨_, _, _, h⟩
  | group h hitems hrest ih =>
    obtain ⟨key, hleaf⟩ := ih
    exact ⟨key, isLeaf_of_items hitems hleaf⟩

theorem exists_written {key : Text} (h : IsLeaf f key loc) : ∃ nodes, Written f nodes loc := by
  induction loc generalizing f with
  | nil =>
    obtain ⟨op, values, hnode⟩ := h
    cases hnode
  | cons i loc ih =>
    obtain ⟨op, values, hnode⟩ := h
    cases loc with
    | nil => exact ⟨_, .leaf hnode⟩
    | cons j inner =>
      obtain ⟨items, hitems, hinner⟩ := Option.bind_eq_some_iff.mp hnode
      obtain ⟨nodes, hwritten⟩ := ih ⟨op, values, hinner⟩
      rw [itemsAt_eq] at hitems
      obtain ⟨entry, hentry, hlevel⟩ := Option.bind_eq_some_iff.mp hitems
      obtain ⟨_, _, _, rfl⟩ | ⟨group, _, rfl⟩ :=
        entries_cases f entry (List.mem_of_getElem? hentry)
      · cases hlevel
      · have hgroup : levelNode f i = some (.group group) := by
          unfold levelNode
          rw [hentry]
          rfl
        refine ⟨_, .group hgroup ((itemsAt_eq f i).trans ?_) hwritten⟩
        rw [hentry]
        exact hlevel

/-- What the components of a path are: operators, and at last a plain key. -/
def WellWritten (nodes : List Text) : Prop :=
  ∃ base key n, nodes = base ++ [numbered key n] ∧ Plain key ∧ key ∉ logicalOperators ∧
    ∀ component ∈ base, CleanNode component ∧
      (nameAndCounter component).1 ∈ logicalOperators

theorem names_numbered {key : Text} (hplain : Plain key) (h : f.keys[i]? = some key) :
    Names (numbered key ((f.keys.take i).count key + 1)) f i := by
  unfold Names
  rw [nameAndCounter_numbered key _ hplain.2]
  exact And.intro h rfl

/-- The path that is written for a leaf is right for it. -/
theorem written_place (hf : WellFormed f) (hplain : ∀ key loc, IsLeaf f key loc → Plain key)
    (h : Written f nodes loc) : Place nodes f loc ∧ WellWritten nodes := by
  induction h with
  | @leaf f i key op values h =>
    have hkey : Plain key := hplain key [i] ⟨op, values, h⟩
    refine ⟨.last (names_numbered hkey ?_), [], key, _, rfl, hkey, not_logical hf h, ?_⟩
    · rw [← levelNode_key, h]
      rfl
    · exact fun _ h => (List.not_mem_nil h).elim
  | @group f items i key nodes loc h hitems hrest ih =>
    have hkey := plain_logical key (logical hf h)
    obtain ⟨hplace, base, last, n, rfl, hlast, hnot, hbase⟩ := ih (wellFormed_items hf hitems)
      fun key loc hleaf => hplain key (i :: loc) (isLeaf_of_items hitems hleaf)
    refine ⟨.step (names_numbered hkey ?_) hitems hplace, _ :: base, last, n, rfl, hlast, hnot, ?_⟩
    · rw [← levelNode_key, h]
      rfl
    · refine List.forall_mem_cons.mpr ⟨⟨cleanNode_numbered hkey _, ?_⟩, hbase⟩
      rw [nameAndCounter_numbered key _ hkey.2]
      exact logical hf h

end Leaves

section Trees

/-- A filter object: what its root operator holds. -/
structure FilterTree where
  items : Filters
  wellFormed : WellFormed items

def FilterTree.filters (tree : FilterTree) : Filters :=
  .group rootOp tree.items .nil

variable (tree : FilterTree)

/-- There is one path for each leaf, and it leads to this leaf. -/
def Listed : Prop :=
  ∃ leaves : List (Text × Loc), filterList tree.filters = .ok (leaves.map Prod.fst) ∧
    (leaves.map Prod.snd).Nodup ∧
    (∀ loc, loc ∈ leaves.map Prod.snd ↔ ∃ key, IsLeaf tree.filters key loc) ∧
    ∀ leaf ∈ leaves, lookup tree.filters leaf.1 = .ok (some leaf.2)

/-- No key of a leaf has a separator or a line break in it. -/
def PlainKeys : Prop :=
  ∀ key loc, IsLeaf tree.filters key loc → Plain key

variable {tree}

theorem wellFormed_filters (tree : FilterTree) : WellFormed tree.filters :=
  ⟨by decide, tree.wellFormed, trivial⟩

theorem isLeaf_filters {key : Text} {loc : Loc} :
    IsLeaf tree.filters key loc ↔ ∃ inner, loc = 0 :: inner ∧ IsLeaf tree.items key inner := by
  constructor
  · rintro ⟨op, values, hnode⟩
    match loc with
    | [] => cases hnode
    | [0] => cases hnode
    | [i + 1] => cases hnode
    | 0 :: j :: inner => exact ⟨j :: inner, rfl, op, values, hnode⟩
    | (i + 1) :: j :: inner => cases hnode
  · rintro ⟨inner, rfl, hleaf⟩
    exact isLeaf_of_items rfl hleaf

/-- The paths of the listing, as components below the root. -/
theorem listing_place (hplain : PlainKeys tree) {e : List Text × Loc}
    (he : e ∈ listing tree.items) :
    Place (rootOp :: e.1) tree.filters (0 :: e.2) ∧ WellWritten e.1 := by
  have hwritten := (mem_listing tree.items e.1 e.2).mp he
  obtain ⟨hplace, hform⟩ := written_place tree.wellFormed
    (fun key loc hleaf => hplain key (0 :: loc) (isLeaf_filters.mpr ⟨loc, rfl, hleaf⟩)) hwritten
  refine ⟨.step ?_ rfl hplace, hform⟩
  have hroot : IsOccurrence [rootOp] (nameAndCounter rootOp).1 (nameAndCounter rootOp).2 0 :=
    (occurrence_iff _ _ _ 0).mp (by decide)
  exact hroot

theorem WellWritten.clean {nodes : List Text} (h : WellWritten nodes) :
    nodes ≠ [] ∧ ∀ node ∈ nodes, CleanNode node := by
  obtain ⟨base, key, n, rfl, hplain, -, hbase⟩ := h
  refine ⟨List.append_ne_nil_of_right_ne_nil base (List.cons_ne_nil _ _), ?_⟩
  intro node hnode
  obtain hin | hlast := List.mem_append.mp hnode
  · exact (hbase node hin).1
  · exact List.mem_singleton.mp hlast ▸ cleanNode_numbered hplain n

theorem components_joinPath {nodes : List Text} (h : WellWritten nodes) :
    componentsOf (joinPath nodes) = rootOp :: nodes :=
  splitPath_rootPath nodes h.clean.1 h.clean.2

theorem filterList_listing (tree : FilterTree) : filterList tree.filters =
    .ok ((listing tree.items).map fun e => joinPath e.1) := by
  rw [FilterTree.filters, filterList_eq _ _ _ tree.wellFormed, ← listing_fst, List.map_map]
  rfl

theorem behind_refl {loc : Loc} (h : loc ≠ []) : Behind loc loc := by
  obtain ⟨up, i, rfl⟩ := (List.eq_nil_or_concat loc).resolve_left h
  exact ⟨up, i, i, List.concat_eq_append, List.concat_eq_append, Nat.le_refl i⟩

/-- The places of the listing are different. -/
theorem places_nodup (tree : FilterTree) :
    ((listing tree.items).map fun e => 0 :: e.2).Nodup := by
  refine (List.pairwise_map.mpr ?_ : List.Pairwise _ _)
  refine (listing_pairwise tree.items).imp_of_mem fun {a b} ha _ hnot heq => hnot ?_
  rw [← (List.cons.inj heq).2]
  exact behind_refl ((mem_listing tree.items a.1 a.2).mp ha).ne_nil

theorem mem_places (loc : Loc) : loc ∈ ((listing tree.items).map fun e => 0 :: e.2) ↔
    ∃ key, IsLeaf tree.filters key loc := by
  rw [List.mem_map]
  constructor
  · rintro ⟨e, he, rfl⟩
    obtain ⟨key, hleaf⟩ := ((mem_listing tree.items e.1 e.2).mp he).isLeaf
    exact ⟨key, isLeaf_filters.mpr ⟨e.2, rfl, hleaf⟩⟩
  · rintro ⟨key, hleaf⟩
    obtain ⟨inner, rfl, hinner⟩ := isLeaf_filters.mp hleaf
    obtain ⟨nodes, hwritten⟩ := exists_written hinner
    exact ⟨(nodes, inner), (mem_listing tree.items nodes inner).mpr hwritten, rfl⟩

/-- A node that is found has a plain key. -/
theorem plain_of_lookup {f : Filters} {path : Text} {loc : Loc}
    (h : lookup f path = .ok (some loc)) {key : Text} (hleaf : IsLeaf f key loc) : Plain key := by
  obtain ⟨op, values, hnode⟩ := hleaf
  obtain hnone | ⟨found, hreaches⟩ := filterNode_none_or (componentsOf path) f
  · cases h.symm.trans hnone
  · have hfound := h.symm.trans hreaches.filterNode_eq
    cases found with
    | none => cases hfound
    | some loc' =>
      obtain rfl := Option.some.inj (Except.ok.inj hfound)
      obtain ⟨node, component, hnode', hlast, hkey⟩ := hreaches.node
      obtain rfl := Option.some.inj (hnode.symm.trans hnode')
      have hname : key = (nameAndCounter component).1 := hkey
      rw [hname]
      exact RawKeys.plain_component (rootPath path) component (List.mem_of_getLast? hlast)

/-- The paths of a tree are exact if and only if its keys are plain. -/
theorem listed_iff : Listed tree ↔ PlainKeys tree := by
  constructor
  · rintro ⟨leaves, -, -, hplaces, hlookup⟩ key loc hleaf
    obtain ⟨leaf, hmem, rfl⟩ := List.mem_map.mp ((hplaces loc).mpr ⟨key, hleaf⟩)
    exact plain_of_lookup (hlookup leaf hmem) hleaf
  · intro hplain
    refine ⟨(listing tree.items).map fun e => (joinPath e.1, 0 :: e.2), ?_, ?_, ?_, ?_⟩
    · rw [filterList_listing, List.map_map]
      rfl
    · rw [List.map_map]
      exact places_nodup tree
    · intro loc
      rw [List.map_map]
      exact mem_places loc
    · intro leaf hmem
      obtain ⟨e, he, rfl⟩ := List.mem_map.mp hmem
      obtain ⟨hplace, hform⟩ := listing_place hplain he
      unfold lookup
      exact (congrArg (filterNode · _) (components_joinPath hform)).trans hplace.filterNode_eq

end Trees

end Qvd.FilterListing
