import Qvd.FilterNodes
import Qvd.Occurrences
import Qvd.RawKeys

/-!
The nodes that paths lead to. A path is right for a node if each of its components, a name with an
occurrence number, is that of a node at its level. The look-up passes over components that are
missing, so that a path can lead to a node that it is not right for.
-/
namespace Qvd.FilterPlaces

open NumberedPath RestFilter FilterNodes Occurrences Checks

section Places

/-- The component is that of the node at an index: its name, and how many up to it have it. -/
def Names (component : Text) (f : Filters) (i : ℕ) : Prop :=
  IsOccurrence f.keys (nameAndCounter component).1 (nameAndCounter component).2 i

/-- Every component is that of a node at its level, the last one of the node at the place. -/
inductive Place : List Text → Filters → Loc → Prop
  | last {component : Text} {f : Filters} {i : ℕ} (h : Names component f i) :
      Place [component] f [i]
  | step {component : Text} {components : List Text} {f items : Filters} {i : ℕ} {loc : Loc}
      (h : Names component f i) (hitems : f.itemsAt i = some items)
      (hrest : Place components items loc) : Place (component :: components) f (i :: loc)

/-- Where a path leads whose missing components are left out: to a node, or below a
comparison. -/
inductive Reaches : List Text → Filters → Option Loc → Prop
  | last {component : Text} {f : Filters} {i : ℕ} (h : Names component f i) :
      Reaches [component] f (some [i])
  | underLeaf {component next : Text} {components : List Text} {f : Filters} {i : ℕ}
      (h : Names component f i) (hleaf : f.itemsAt i = none) :
      Reaches (component :: next :: components) f none
  | step {component next : Text} {components : List Text} {f items : Filters} {i : ℕ}
      {found : Option Loc} (h : Names component f i) (hitems : f.itemsAt i = some items)
      (hrest : Reaches (next :: components) items found) :
      Reaches (component :: next :: components) f (found.map (i :: ·))
  | missing {component : Text} {components : List Text} {f : Filters} {found : Option Loc}
      (h : ∀ i, ¬ Names component f i) (hrest : Reaches components f found) :
      Reaches (component :: components) f found

variable {component : Text} {components : List Text} {f : Filters} {i : ℕ} {loc : Loc}
  {found : Option Loc}

theorem Place.reaches (h : Place components f loc) : Reaches components f (some loc) := by
  induction h with
  | last h => exact .last h
  | step h hitems hrest ih =>
    cases hrest with
    | last hlast => exact .step h hitems ih
    | step h' hitems' hrest' => exact .step h hitems ih

theorem occurrence_iff (name : Text) (n : ℕ) (keys : List Text) (i : ℕ) :
    occurrence name n keys = some i ↔ IsOccurrence keys name n i := by
  induction keys generalizing n i with
  | nil => simp [occurrence, IsOccurrence]
  | cons key keys ih =>
    have hmap (m : ℕ) : (occurrence name m keys).map (· + 1) = some i ↔
        ∃ j, IsOccurrence keys name m j ∧ j + 1 = i := by
      rw [Option.map_eq_some_iff]
      exact exists_congr fun j => and_congr_left fun _ => ih m j
    unfold occurrence
    split_ifs with hkey hone
    · subst hkey hone
      cases i with
      | zero => simp [IsOccurrence]
      | succ i => simp [IsOccurrence]
    · subst hkey
      rw [hmap]
      cases i with
      | zero => simp [IsOccurrence, Ne.symm hone]
      | succ i =>
        simp only [IsOccurrence, Nat.add_right_cancel_iff, exists_eq_right,
          List.getElem?_cons_succ, List.take_succ_cons, List.count_cons_self]
        exact and_congr_right fun _ => by omega
    · rw [hmap]
      cases i with
      | zero => simp [IsOccurrence, hkey]
      | succ i => simp [IsOccurrence, hkey]

theorem occurrence_names :
    occurrence (nameAndCounter component).1 (nameAndCounter component).2 f.keys = some i ↔
      Names component f i :=
  occurrence_iff ..

theorem occurrence_none
    (h : occurrence (nameAndCounter component).1 (nameAndCounter component).2 f.keys = none) :
    ∀ i, ¬ Names component f i := by
  intro i hnames
  rw [occurrence_names.mpr hnames] at h
  cases h

/-- The look-up goes where the path leads without its missing components. -/
theorem Reaches.filterNode_eq (h : Reaches components f found) :
    filterNode components f = found.elim (.error .notAnArray) fun loc => .ok (some loc) := by
  induction h with
  | last h => simp only [filterNode, occurrence_names.mpr h, if_true, Option.elim]
  | underLeaf h hleaf =>
    simp only [filterNode, occurrence_names.mpr h, if_neg (List.cons_ne_nil _ _), hleaf,
      Option.elim]
  | step h hitems hrest ih =>
    rename_i next' components' f' i' items' found'
    rw [filterNode, occurrence_names.mpr h]
    simp only [if_neg (List.cons_ne_nil _ _), hitems, ih]
    cases found' <;> rfl
  | missing h hrest ih =>
    rename_i component' components' f' found'
    cases hoccurrence : occurrence (nameAndCounter component').1 (nameAndCounter component').2
        f'.keys with
    | none => simp only [filterNode, hoccurrence, ih]
    | some i => exact absurd (occurrence_names.mp hoccurrence) (h i)

/-- Otherwise it finds nothing. -/
theorem filterNode_none_or (components : List Text) (f : Filters) :
    filterNode components f = .ok none ∨ ∃ found, Reaches components f found := by
  induction components generalizing f with
  | nil => exact .inl rfl
  | cons component components ih =>
    cases hoccurrence : occurrence (nameAndCounter component).1 (nameAndCounter component).2
        f.keys with
    | none =>
      obtain hnone | ⟨found, hfound⟩ := ih f
      · exact .inl (by simp only [filterNode, hoccurrence, hnone])
      · exact .inr ⟨found, .missing (occurrence_none hoccurrence) hfound⟩
    | some i =>
      have hnames := occurrence_names.mp hoccurrence
      cases components with
      | nil => exact .inr ⟨_, .last hnames⟩
      | cons next components =>
        cases hitems : f.itemsAt i with
        | none => exact .inr ⟨none, .underLeaf hnames hitems⟩
        | some items =>
          obtain hnone | ⟨found, hfound⟩ := ih items
          · refine .inl ?_
            simp only [filterNode, hoccurrence, if_neg (List.cons_ne_nil _ _), hitems] at hnone ⊢
            rw [hnone]
            rfl
          · exact .inr ⟨_, .step hnames hitems hfound⟩

theorem Place.filterNode_eq (h : Place components f loc) :
    filterNode components f = .ok (some loc) :=
  h.reaches.filterNode_eq

/-- Where a path leads there is a node, and its key is the name of the last component. -/
theorem Reaches.node (h : Reaches components f (some loc)) : ∃ node component,
    nodeAt f loc = some node ∧ components.getLast? = some component ∧
      node.key = (nameAndCounter component).1 := by
  generalize hfound : some loc = found at h
  induction h generalizing loc with
  | @last component f i h =>
    obtain rfl := Option.some.inj hfound
    obtain ⟨node, hnode, hkey⟩ := Option.map_eq_some_iff.mp ((levelNode_key f i).trans h.1)
    exact ⟨node, component, hnode, rfl, hkey⟩
  | underLeaf => cases hfound
  | @step component next components f items i found h hitems hrest ih =>
    obtain ⟨inner, rfl, rfl⟩ := Option.map_eq_some_iff.mp hfound.symm
    obtain ⟨node, last, hnode, hlast, hkey⟩ := ih rfl
    refine ⟨node, last, ?_, by rw [List.getLast?_cons, hlast]; rfl, hkey⟩
    cases inner with
    | nil => cases hnode
    | cons j inner => exact (congrArg (Option.bind · _) hitems).trans hnode
  | missing h hrest ih =>
    obtain ⟨node, last, hnode, hlast, hkey⟩ := ih hfound
    exact ⟨node, last, hnode, by rw [List.getLast?_cons, hlast]; rfl, hkey⟩

theorem Place.node (h : Place components f loc) : ∃ node component, nodeAt f loc = some node ∧
    components.getLast? = some component ∧ node.key = (nameAndCounter component).1 :=
  h.reaches.node

theorem Place.unique {loc' : Loc} (h : Place components f loc) (h' : Place components f loc') :
    loc = loc' :=
  Option.some.inj (Except.ok.inj (h.filterNode_eq.symm.trans h'.filterNode_eq))

end Places

section Comparisons

theorem comparisonAt_cons (f : Filters) (i j : ℕ) (loc : Loc) :
    comparisonAt f (i :: j :: loc) = match f.itemsAt i with
      | none => .error .notAHash
      | some items => comparisonAt items (j :: loc) := by
  induction f generalizing i with
  | nil => cases i <;> rfl
  | leaf key op values rest ih => cases i with
    | zero => rfl
    | succ i => exact ih i
  | group key items rest _ ih => cases i with
    | zero => rfl
    | succ i => exact ih i

/-- What is read of a node. -/
theorem comparisonAt_eq (f : Filters) (loc : Loc) :
    comparisonAt f loc = match nodeAt f loc with
      | some (.leaf _ op values) => .ok (op, values)
      | _ => .error .notAHash := by
  induction loc generalizing f with
  | nil => cases f <;> rfl
  | cons i loc ih => cases loc with
    | nil =>
      unfold nodeAt
      induction f generalizing i with
      | nil => cases i <;> rfl
      | leaf key op values rest ihrest => cases i with
        | zero => rfl
        | succ i => exact ihrest i
      | group key items rest _ ihrest => cases i with
        | zero => rfl
        | succ i => exact ihrest i
    | cons j loc =>
      rw [comparisonAt_cons, nodeAt]
      cases f.itemsAt i with
      | none => rfl
      | some items => exact ih items

end Comparisons

section Exact

variable (f : Filters) (path : Text)

/-- The components of a path as the look-up reads them. -/
def componentsOf : List Text := splitPath (rootPath path)

/-- The operations act on the node at a place, and on no other one. -/
structure ActsOn (loc : Loc) : Prop where
  has : hasFilter f path = .ok true
  value : ∀ key op values, nodeAt f loc = some (.leaf key op values) →
    filterValue f path = .ok (some values)
  operator : ∀ key op values, nodeAt f loc = some (.leaf key op values) →
    filterOperator f path = .ok (some op)
  setKey : ∀ key node, nodeAt f loc = some node → ∃ f', setFilterKey f path key = .ok f' ∧
    nodeAt f' loc = some (node.withKey key) ∧
    ∀ other, other ≠ loc → nodeAt f' other = nodeAt f other
  setValue : ∀ node value new, nodeAt f loc = some node → normalizePair node.key value = .ok new →
    ∃ f', setFilterValue f path value = .ok f' ∧
      (∀ inner, nodeAt f' (loc ++ inner) = nodeAt new (0 :: inner)) ∧
      ∀ other, ¬ loc <+: other → nodeAt f' other = nodeAt f other
  del : ∃ f', delFilter f path = .ok f' ∧
    ∀ other, nodeAt f' other = nodeAt f (restored loc other)

/-- The operations find nothing and change nothing. -/
structure ActsNowhere : Prop where
  has : hasFilter f path = .ok false
  value : filterValue f path = .ok none
  operator : filterOperator f path = .ok none
  setKey : ∀ key, setFilterKey f path key = .ok f
  setValue : ∀ value new, normalizePair (nameFromPath (rootPath path)) value = .ok new →
    setFilterValue f path value = .ok f
  del : delFilter f path = .ok f

/-- The operations act on the node whose components the path has, if there is one. -/
def Exact : Prop :=
  (∀ loc, Place (componentsOf path) f loc → ActsOn f path loc) ∧
    ((∀ loc, ¬ Place (componentsOf path) f loc) → ActsNowhere f path)

variable {f path} {loc : Loc}

/-- A pair in normal form is one node with the key. -/
theorem normalizePair_entry {key : Text} {value : Json} {new : Filters}
    (h : normalizePair key value = .ok new) :
    ∃ entry, entries new = [entry] ∧ entry.1.key = key := by
  unfold normalizePair at h
  split at h
  · cases h
  · rename_i f' hitems
    obtain rfl := Except.ok.inj h
    simp only [normalizeItems, Json.key?] at hitems
    split at hitems
    · simp only [bind_ok, pure_ok, Except.ok.injEq] at hitems
      obtain ⟨items, -, rest, rfl, rfl⟩ := hitems
      exact ⟨_, rfl, rfl⟩
    · simp only [bind_ok, pure_ok, Except.ok.injEq] at hitems
      obtain ⟨comp, -, rest, rfl, rfl⟩ := hitems
      exact ⟨_, rfl, rfl⟩

theorem actsOn_of_place (h : Place (componentsOf path) f loc) : ActsOn f path loc := by
  have hlookup : lookup f path = .ok (some loc) := h.filterNode_eq
  obtain ⟨there, component, hthere, hlast, hkey⟩ := h.node
  refine ⟨?_, ?_, ?_, ?_, ?_, ?_⟩
  · simp [hasFilter, hlookup, Except.map]
  · intro key op values hnode
    simp [filterValue, hlookup, comparisonAt_eq, hnode, bind, Except.bind, pure, Except.pure]
  · intro key op values hnode
    simp [filterOperator, hlookup, comparisonAt_eq, hnode, bind, Except.bind, pure, Except.pure]
  · intro key node hnode
    refine ⟨_, ?_, nodeAt_setKey hnode key⟩
    simp [setFilterKey, hlookup, bind, Except.bind, pure, Except.pure]
  · intro node value new hnode hnew
    obtain ⟨entry, hentry, hsame⟩ := normalizePair_entry hnew
    refine ⟨_, ?_, nodeAt_setValue hnode hentry hsame.symm⟩
    obtain rfl : there = node := Option.some.inj (hthere.symm.trans hnode)
    have hname : nameFromPath (rootPath path) = there.key := by
      unfold componentsOf at hlast
      rw [nameFromPath, hlast, hkey]
      rfl
    simp [setFilterValue, hname, hnew, hlookup, bind, Except.bind, pure, Except.pure]
  · refine ⟨_, ?_, nodeAt_dropNode hthere⟩
    simp [delFilter, hlookup, bind, Except.bind, pure, Except.pure]

theorem actsNowhere_of_lookup (h : lookup f path = .ok none) : ActsNowhere f path := by
  refine ⟨?_, ?_, ?_, ?_, ?_, ?_⟩
  · simp [hasFilter, h, Except.map]
  · simp [filterValue, h, bind, Except.bind, pure, Except.pure]
  · simp [filterOperator, h, bind, Except.bind, pure, Except.pure]
  · intro key
    simp [setFilterKey, h, bind, Except.bind, pure, Except.pure]
  · intro value new hnew
    simp [setFilterValue, hnew, h, bind, Except.bind, pure, Except.pure]
  · simp [delFilter, h, bind, Except.bind, pure, Except.pure]

/-- The operations are exact for a path that is right for a node, and for one that leads nowhere
without its missing components. -/
theorem exact_iff_place (f : Filters) (path : Text) :
    Exact f path ↔ (∃ loc, Place (componentsOf path) f loc) ∨
      ∀ found, ¬ Reaches (componentsOf path) f found := by
  constructor
  · rintro ⟨-, hnowhere⟩
    by_cases hplace : ∃ loc, Place (componentsOf path) f loc
    · exact .inl hplace
    · refine .inr fun found hreaches => ?_
      have hhas := (hnowhere fun loc h => hplace ⟨loc, h⟩).has
      have hlookup : lookup f path = _ := hreaches.filterNode_eq
      rw [hasFilter, hlookup] at hhas
      cases found <;> cases hhas
  · rintro (⟨loc, hplace⟩ | hnone)
    · exact ⟨fun loc' h => actsOn_of_place h, fun hnot => absurd hplace (hnot loc)⟩
    · refine ⟨fun loc h => absurd h.reaches (hnone _), fun _ => actsNowhere_of_lookup ?_⟩
      exact (filterNode_none_or _ f).resolve_right fun ⟨found, h⟩ => hnone found h

end Exact

section Adds

/-- The components of the path to the group that a filter is added in, as the look-up reads
them. -/
def groupComponents (path : Text) (key : Option Text) : List Text :=
  splitPath (joinPath (rootOp :: (splitPath path ++ key.toList).dropLast))

/-- The key of the filter that is added. -/
def addedKey (path : Text) (key : Option Text) : Text :=
  (splitPath path ++ key.toList).getLast?.getD []

/-- A filter comes to the end of the group that its path is right for; where there is none, it is
not put in another group. -/
structure Adds (f : Filters) (path : Text) (key : Option Text) : Prop where
  there : ∀ loc g value new, Place (groupComponents path key) f loc → levelAt f loc = some g →
    normalizePair (addedKey path key) value = .ok new →
    ∃ f', addFilter f path value key = .ok f' ∧
      (∀ inner, nodeAt f' (loc ++ g.keys.length :: inner) = nodeAt new (0 :: inner)) ∧
      ∀ other, ¬ loc ++ [g.keys.length] <+: other → nodeAt f' other = nodeAt f other
  nowhere : (∀ loc, ¬ Place (groupComponents path key) f loc) →
    ∀ loc g value new, loc ≠ [] → levelAt f loc = some g →
      normalizePair (addedKey path key) value = .ok new →
      addFilter f path value key ≠ .ok (modifyAt (pushItems new) f loc)

variable {f : Filters} {path : Text} {key : Option Text} {loc : Loc}

theorem addFilter_eq {value : Json} {new : Filters}
    (hnew : normalizePair (addedKey path key) value = .ok new) :
    addFilter f path value key =
      addBelow f (splitPath path ++ key.toList).reverse.tail new := by
  have hhead : (splitPath path ++ key.toList).reverse.headD [] = addedKey path key := by
    rw [List.headD_eq_head?_getD, List.head?_reverse]
    rfl
  rw [addFilter, hhead, hnew]
  rfl

theorem target_eq : splitPath (joinPath
    (rootOp :: (splitPath path ++ key.toList).reverse.tail.reverse)) =
      groupComponents path key := by
  rw [List.tail_reverse, List.reverse_reverse]
  rfl

theorem Reaches.ne_nil {components : List Text} (h : Reaches components f (some loc)) :
    loc ≠ [] := by
  rintro rfl
  obtain ⟨node, _, hnode, -⟩ := h.node
  cases hnode

/-- Nodes are pushed on the level of a group. -/
theorem pushOn_eq {components : List Text} {g new : Filters}
    (h : Reaches components f (some loc)) (hg : levelAt f loc = some g) :
    pushOn f components new = .ok (modifyAt (pushItems new) f loc) := by
  obtain ⟨key, hnode⟩ := (levelAt_iff h.ne_nil).mp ⟨g, hg⟩
  have hfound : filterNode components f = .ok (some loc) := h.filterNode_eq
  simp [pushOn, hfound, comparisonAt_eq, hnode, bind, Except.bind, pure, Except.pure]

theorem pushOn_ok {components : List Text} {new f' : Filters}
    (h : pushOn f components new = .ok f') : ∃ loc g, Reaches components f (some loc) ∧
      levelAt f loc = some g ∧ f' = modifyAt (pushItems new) f loc := by
  rw [pushOn, bind_ok] at h
  obtain ⟨found, hlookup, h⟩ := h
  cases found with
  | none => cases h
  | some loc =>
    obtain hnone | ⟨found, hreaches⟩ := filterNode_none_or components f
    · rw [hnone] at hlookup
      cases hlookup
    · obtain rfl : found = some loc := by
        rw [hreaches.filterNode_eq] at hlookup
        cases found with
        | none => cases hlookup
        | some loc' => exact Except.ok.inj hlookup
      obtain ⟨node, _, hnode, -⟩ := hreaches.node
      cases node with
      | leaf key op values => simp [comparisonAt_eq, hnode] at h
      | group key =>
        obtain ⟨g, hg⟩ := (levelAt_iff hreaches.ne_nil).mpr ⟨key, hnode⟩
        simp only [comparisonAt_eq, hnode] at h
        exact ⟨loc, g, hreaches, hg, (pure_ok.mp h).symm⟩

theorem size_pushOn {components : List Text} {new f' : Filters}
    (h : pushOn f components new = .ok f') : size f' = size f + size new := by
  obtain ⟨loc, g, hreaches, hg, rfl⟩ := pushOn_ok h
  exact size_pushItems hreaches.ne_nil hg

theorem size_pair {name : Text} {value : Json} {new : Filters}
    (h : normalizePair name value = .ok new) : 0 < size new := by
  obtain ⟨entry, hentry, -⟩ := normalizePair_entry h
  cases new with
  | nil => cases hentry
  | leaf => exact Nat.succ_pos _
  | group => exact Nat.succ_pos _

/-- By induction on the names of the levels that have to be there first. -/
theorem size_addBelow (names : List Text) {f' new : Filters} (h : addBelow f names new = .ok f') :
    size f + size new ≤ size f' ∧
      (filterNode (splitPath (joinPath (rootOp :: names.reverse))) f = .ok none →
        size f + size new < size f') := by
  induction hlen : names.length using Nat.strongRecOn generalizing names f f' new with
  | ind n ih =>
    rw [addBelow, bind_ok] at h
    obtain ⟨found, hlookup, h⟩ := h
    split at h
    · refine ⟨Nat.le_of_eq (size_pushOn h).symm, fun hnone => ?_⟩
      rw [hnone] at hlookup
      cases hlookup
    · split at h
      · cases h
      · next hne =>
        have hpos : 0 < names.length := List.length_pos_of_ne_nil hne
        split at h
        · simp only [bind_ok] at h
          obtain ⟨level, hlevel, f₁, hadd, hpush⟩ := h
          have hfirst := (ih 0 (by omega) [] hadd rfl).1
          have hlevel := size_pair hlevel
          rw [size_pushOn hpush]
          exact ⟨by omega, fun _ => by omega⟩
        · next name outer hdrop =>
          simp only [bind_ok] at h
          obtain ⟨level, hlevel, f₁, hadd, hpush⟩ := h
          have hle := (List.dropWhile_sublist (fun name : Text => name.isEmpty)
            (l := names)).length_le
          rw [hdrop, List.length_cons] at hle
          have hfirst := (ih outer.length (by omega) outer hadd rfl).1
          have hlevel := size_pair hlevel
          rw [size_pushOn hpush]
          exact ⟨by omega, fun _ => by omega⟩

/-- With a list as the value any key gives a filter. -/
theorem exists_pair (name : Text) : ∃ new, normalizePair name (.array []) = .ok new := by
  by_cases hlogical : name ∈ logicalOperators
  · simp [normalizePair, normalizeItems, Json.key?, hlogical, normalizeFilter, bind, Except.bind,
      pure, Except.pure]
  · simp [normalizePair, normalizeItems, Json.key?, hlogical, comparison, bind, Except.bind,
      pure, Except.pure]

/-- A filter that is added to a group that the path leads to. -/
theorem addFilter_reaches {g new : Filters} {value : Json}
    (h : Reaches (groupComponents path key) f (some loc)) (hg : levelAt f loc = some g)
    (hnew : normalizePair (addedKey path key) value = .ok new) :
    addFilter f path value key = .ok (modifyAt (pushItems new) f loc) := by
  have hfound : filterNode (groupComponents path key) f = .ok (some loc) := h.filterNode_eq
  rw [addFilter_eq hnew, addBelow, target_eq]
  simp only [hfound, bind, Except.bind, pushOn_eq h hg]

theorem adds_iff (f : Filters) (path : Text) (key : Option Text) :
    Adds f path key ↔ (∃ loc, Place (groupComponents path key) f loc) ∨
      ∀ loc g, Reaches (groupComponents path key) f (some loc) → levelAt f loc ≠ some g := by
  constructor
  · rintro ⟨-, hnowhere⟩
    by_cases hplace : ∃ loc, Place (groupComponents path key) f loc
    · exact .inl hplace
    · refine .inr fun loc g hreaches hg => ?_
      obtain ⟨new, hnew⟩ := exists_pair (addedKey path key)
      exact hnowhere (fun loc h => hplace ⟨loc, h⟩) loc g _ new hreaches.ne_nil hg hnew
        (addFilter_reaches hreaches hg hnew)
  · intro hcond
    refine ⟨?_, ?_⟩
    · intro loc g value new hplace hg hnew
      obtain ⟨entry, hentry, -⟩ := normalizePair_entry hnew
      obtain ⟨hthere, hothers⟩ := nodeAt_pushItems new hplace.reaches.ne_nil hg
      refine ⟨_, addFilter_reaches hplace.reaches hg hnew, fun inner => hthere 0 inner, ?_⟩
      intro other hnot
      by_cases hbehind : ∃ j inner, other = loc ++ (g.keys.length + j) :: inner
      · obtain ⟨j, inner, rfl⟩ := hbehind
        cases j with
        | zero => exact absurd ⟨inner, by rw [List.append_assoc]; rfl⟩ hnot
        | succ j =>
          have hlength : g.keys.length = (entries g).length := by rw [keys_eq, List.length_map]
          have hnew : (entries new)[j + 1]? = none := by rw [hentry]; rfl
          have hold : (entries g)[g.keys.length + (j + 1)]? = none := by
            rw [hlength]
            exact List.getElem?_eq_none (Nat.le_add_right _ _)
          rw [hthere, nodeAt_of_none hnew, nodeAt_append, hg]
          exact (nodeAt_of_none hold inner).symm
      · exact hothers other fun j inner heq => hbehind ⟨j, inner, heq⟩
    · intro hnone loc g value new hne hg hnew hadd
      have hnoplace := hcond.resolve_left fun ⟨loc, h⟩ => hnone loc h
      rw [addFilter_eq hnew] at hadd
      have hsize := size_addBelow _ hadd
      rw [target_eq, size_pushItems hne hg] at hsize
      obtain hlookup | ⟨found, hreaches⟩ := filterNode_none_or (groupComponents path key) f
      · exact Nat.lt_irrefl _ (hsize.2 hlookup)
      · have hlookup := hreaches.filterNode_eq
        rw [addBelow, target_eq, bind_ok] at hadd
        obtain ⟨found', hfound', hadd⟩ := hadd
        rw [hlookup] at hfound'
        cases found with
        | none => cases hfound'
        | some loc' =>
          obtain rfl := Except.ok.inj hfound'
          obtain ⟨loc'', g', hreaches', hg', -⟩ := pushOn_ok hadd
          exact hnoplace loc'' g' hreaches' hg'

end Adds

end Qvd.FilterPlaces
