import Qvd.FilterListing

/-!
Going through the listed paths of a filter object while leaves are deleted, renamed and added. An
edit on a path changes its level from the current leaf on only, and the leaves of that level that
are still to come stand before it.
-/
namespace Qvd.FilterWalks

open NumberedPath RestFilter FilterPaths FilterContext FilterNodes FilterPlaces FilterListing
  Occurrences Checks

section Walks

/-- What is done on the path of a leaf. -/
inductive Edit
  | delete
  | rename (key : Text)
  | add (key : Text) (value : Json)

/-- A leaf stays a leaf, and one that is added is one. -/
def Edit.Valid : Edit → Prop
  | .delete => True
  | .rename key => key ∉ logicalOperators
  | .add key value => key ∉ logicalOperators ∧ ∃ new, comparison value = .ok new

def Edit.apply (f : Filters) (path : Text) : Edit → Except ApiError Filters
  | .delete => delFilter f path
  | .rename key => setFilterKey f path key
  | .add key value => addFilter f (basedirFromPath path) value (some key)

/-- Where the nodes stood before. -/
def Edit.origin (f : Filters) (path : Text) : Edit → Loc → Loc
  | .delete =>
    match lookup f path with
    | .ok (some loc) => restored loc
    | _ => id
  | _ => id

/-- A tree, and where its nodes stood at first. -/
structure Walk where
  tree : Filters
  origin : Loc → Loc

def Walk.edit (walk : Walk) (path : Text) (edit : Edit) : Except ApiError Walk :=
  (edit.apply walk.tree path).map fun tree => ⟨tree, walk.origin ∘ edit.origin walk.tree path⟩

/-- Any number of edits on one path. -/
def Walk.visit (walk : Walk) (visit : Text × List Edit) : Except ApiError Walk :=
  visit.2.foldlM (fun walk edit => walk.edit visit.1 edit) walk

/-- Wherever a walk along the listed paths has come to, each of the paths that are left leads to
the leaf that it led to at first. -/
def Stable (tree : FilterTree) : Prop :=
  ∀ (visits : List (Text × List Edit)) (rest : List Text),
    filterList tree.filters = .ok (visits.map Prod.fst ++ rest) →
    (∀ visit ∈ visits, ∀ edit ∈ visit.2, edit.Valid) →
    ∃ walk, visits.foldlM Walk.visit ⟨tree.filters, id⟩ = .ok walk ∧
      ∀ path ∈ rest, ∃ loc now, lookup tree.filters path = .ok (some loc) ∧
        lookup walk.tree path = .ok (some now) ∧ walk.origin now = loc ∧
          nodeAt walk.tree now = nodeAt tree.filters loc

end Walks

section Levels

variable {f g : Filters} {up : Loc} {base components : List Text} {component : Text} {loc : Loc}

/-- The look-up goes on from the level of a group. -/
theorem filterNode_append (h : Place base f up) (hg : levelAt f up = some g)
    (hne : components ≠ []) : filterNode (base ++ components) f =
      (filterNode components g).map (Option.map (up ++ ·)) := by
  induction h with
  | @last component f i h =>
    obtain ⟨items, hitems, hlevel⟩ := Option.bind_eq_some_iff.mp hg
    obtain rfl := Option.some.inj hlevel
    rw [List.singleton_append, filterNode, occurrence_names.mpr h]
    simp only [if_neg hne, hitems]
    rfl
  | @step component base f items i up h hitems hrest ih =>
    obtain ⟨items', hitems', hlevel⟩ := Option.bind_eq_some_iff.mp hg
    obtain rfl := Option.some.inj (hitems.symm.trans hitems')
    rw [List.cons_append, filterNode, occurrence_names.mpr h]
    simp only [if_neg (List.append_ne_nil_of_right_ne_nil base hne), hitems, ih hlevel]
    cases filterNode components g with
    | error e => rfl
    | ok found => cases found <;> rfl

/-- Below a group a path goes on from its level. -/
theorem place_append (h : Place base f up) (hg : levelAt f up = some g)
    (hrest : Place components g loc) : Place (base ++ components) f (up ++ loc) := by
  induction h with
  | @last component f i h =>
    obtain ⟨items, hitems, hlevel⟩ := Option.bind_eq_some_iff.mp hg
    obtain rfl := Option.some.inj hlevel
    exact .step h hitems hrest
  | @step component base f items i up h hitems _ ih =>
    obtain ⟨items', hitems', hlevel⟩ := Option.bind_eq_some_iff.mp hg
    obtain rfl := Option.some.inj (hitems.symm.trans hitems')
    exact .step h hitems (ih hlevel)

/-- The last component of a path is that of a node of the level that the others lead to. -/
theorem place_concat (hne : base ≠ []) (h : Place (base ++ [component]) f loc) :
    ∃ up i g, loc = up ++ [i] ∧ Place base f up ∧ levelAt f up = some g ∧ Names component g i := by
  induction base generalizing f loc with
  | nil => exact absurd rfl hne
  | cons first base ih =>
    rw [List.cons_append] at h
    generalize htail : base ++ [component] = tail at h
    cases h with
    | last _ => exact absurd (List.append_eq_nil_iff.mp htail).2 (List.cons_ne_nil _ _)
    | @step _ _ _ items i inner h hitems hrest =>
      cases base with
      | nil =>
        obtain rfl := htail
        cases hrest with
        | @last _ _ j hlast =>
          exact ⟨[i], j, items, rfl, .last h, by simp [levelAt, hitems], hlast⟩
        | step _ _ hmore => cases hmore
      | cons second base =>
        obtain ⟨up, j, g, rfl, hup, hg, hlast⟩ := ih (List.cons_ne_nil _ _) (htail ▸ hrest)
        exact ⟨i :: up, j, g, rfl, .step h hitems hup, by simp [levelAt, hitems, hg], hlast⟩

end Levels

section Changes

variable {f g : Filters} {up loc : Loc} {components : List Text} {change : Filters → Filters}

theorem keys_setItems (new f : Filters) (i : ℕ) : (setItems new f i).keys = f.keys := by
  rw [keys_eq, keys_eq, entries_setItems]
  refine List.ext_getElem? fun j => ?_
  rw [List.getElem?_map, List.getElem?_map, List.getElem?_modify]
  cases (entries f)[j]? with
  | none => rfl
  | some entry =>
    refine congrArg some ?_
    change Node.key (if i = j then _ else entry).1 = _
    split_ifs <;> rfl

/-- A change of a level leaves the paths to other levels right. -/
theorem place_changeLevel_other (h : Place components f loc)
    (hother : ∀ i inner, loc ≠ up ++ i :: inner) :
    Place components (changeLevel change f up) loc := by
  induction up generalizing f components loc with
  | nil => cases h <;> exact absurd rfl (hother _ _)
  | cons i up ih =>
    cases hitems : f.itemsAt i with
    | none =>
      rw [changeLevel, hitems]
      exact h
    | some items =>
      rw [changeLevel_cons hitems]
      have hnames {component : Text} {j : ℕ} (hnames : Names component f j) :
          Names component (setItems (changeLevel change items up) f i) j := by
        unfold Names
        rw [keys_setItems]
        exact hnames
      cases h with
      | last hlast => exact .last (hnames hlast)
      | @step _ _ _ items' j inner hfirst hitems' hrest =>
        by_cases hsame : j = i
        · subst hsame
          obtain rfl := Option.some.inj (hitems.symm.trans hitems')
          exact .step (hnames hfirst) (itemsAt_setItems hitems _)
            (ih hrest fun k more heq => hother k more (congrArg (j :: ·) heq))
        · exact .step (hnames hfirst) ((itemsAt_setItems_ne _ hsame).trans hitems') hrest

/-- Below a level that is changed a path is right if its end is on the new level. -/
theorem place_changeLevel (change : Filters → Filters) (h : Place components f (up ++ loc))
    (hg : levelAt f up = some g) (hne : loc ≠ []) : ∃ front back, components = front ++ back ∧ Place back g loc ∧
      ∀ loc', Place back (change g) loc' →
        Place components (changeLevel change f up) (up ++ loc') := by
  induction up generalizing f components with
  | nil =>
    obtain rfl := Option.some.inj hg
    exact ⟨[], components, rfl, h, fun _ h => h⟩
  | cons i up ih =>
    obtain ⟨items, hitems, hlevel⟩ := Option.bind_eq_some_iff.mp hg
    rw [List.cons_append] at h
    generalize hinner : up ++ loc = inner at h
    cases h with
    | last _ => exact absurd (List.append_eq_nil_iff.mp hinner).2 hne
    | @step component components _ items' _ _ hfirst hitems' hrest =>
      obtain rfl := Option.some.inj (hitems.symm.trans hitems')
      obtain ⟨front, back, rfl, hback, hchanged⟩ := ih (hinner ▸ hrest) hlevel
      refine ⟨component :: front, back, rfl, hback, fun loc' hloc' => ?_⟩
      rw [changeLevel_cons hitems]
      refine .step ?_ (itemsAt_setItems hitems _) (hchanged loc' hloc')
      unfold Names
      rw [keys_setItems]
      exact hfirst

end Changes

section Shifts

/-- A level and what becomes of it: its first nodes and the groups stay, in their order. -/
structure Shift (g g' : Filters) (t : ℕ) (origin : ℕ → ℕ) : Prop where
  moved : ∀ component y, Names component g y →
    (y < t ∨ (nameAndCounter component).1 ∈ logicalOperators) →
    ∃ y', Names component g' y' ∧ origin y' = y ∧ (entries g')[y']? = (entries g)[y]?
  front : ∀ component y, y < t → Names component g' y → Names component g y
  length : t ≤ g'.keys.length
  mono : ∀ x y, x ≤ y → origin x ≤ origin y
  le : ∀ y, y ≤ origin y

variable {g : Filters} {t i : ℕ} {node : Node}

/-- A level around one of its nodes. -/
theorem entries_split (h : levelNode g i = some node) : ∃ front items back,
    front.length = i ∧ entries g = front ++ (node, items) :: back ∧
      entries (modifyAt dropNode g [i]) = front ++ back ∧
      ∀ key, entries (modifyAt (setKey key) g [i]) =
        front ++ (node.withKey key, items) :: back := by
  obtain ⟨⟨_, items⟩, hentry, rfl⟩ := Option.map_eq_some_iff.mp h
  obtain ⟨hlt, hget⟩ := List.getElem?_eq_some_iff.mp hentry
  refine ⟨(entries g).take i, items, (entries g).drop (i + 1),
    List.length_take_of_le (Nat.le_of_lt hlt), ?_, ?_, fun key => ?_⟩
  · rw [← hget, List.getElem_cons_drop, List.take_append_drop]
  · rw [entries_dropNode, List.eraseIdx_eq_take_drop_succ]
  · rw [entries_setKey, List.modify_eq_take_cons_drop hlt, hget]

theorem names_of_entries {f : Filters} {l : List (Node × Option Filters)} (h : entries f = l)
    (component : Text) (y : ℕ) : Names component f y ↔
      IsOccurrence (l.map fun entry => entry.1.key) (nameAndCounter component).1
        (nameAndCounter component).2 y := by
  unfold Names
  rw [keys_eq, h]

variable {g' : Filters} {front back l l' : List (Node × Option Filters)} {items : Option Filters}
  {component : Text} {y : ℕ}

/-- Two levels with the same first nodes. -/
theorem names_front (hg : entries g = front ++ l) (hg' : entries g' = front ++ l')
    (hlt : y < front.length) (component : Text) :
    (Names component g' y ↔ Names component g y) ∧ (entries g')[y]? = (entries g)[y]? := by
  have hlt' : y < (front.map fun entry => entry.1.key).length := by rwa [List.length_map]
  constructor
  · rw [names_of_entries hg, names_of_entries hg', List.map_append, List.map_append,
      isOccurrence_append hlt', isOccurrence_append hlt']
  · rw [hg, hg', List.getElem?_append_left hlt, List.getElem?_append_left hlt]

/-- A group that does not stand before a leaf stands behind it. -/
theorem exists_behind (hg : entries g = front ++ (node, items) :: back)
    (hne : node.key ≠ (nameAndCounter component).1) (hy : Names component g y)
    (hge : ¬ y < front.length) : ∃ k, y = front.length + (k + 1) := by
  obtain ⟨k, rfl⟩ := Nat.exists_eq_add_of_le (Nat.le_of_not_lt hge)
  cases k with
  | zero =>
    have hkey := (levelNode_key g (front.length + 0)).trans hy.1
    rw [levelNode, hg, List.getElem?_append_right (Nat.le_add_right _ _),
      Nat.add_sub_cancel_left] at hkey
    exact absurd (Option.some.inj hkey) hne
  | succ k => exact ⟨k, rfl⟩

theorem names_behind (hg : entries g = front ++ l) (k : ℕ) :
    Names component g (front.length + k) ↔
      IsOccurrence ((front.map fun entry => entry.1.key) ++ l.map fun entry => entry.1.key)
        (nameAndCounter component).1 (nameAndCounter component).2
        ((front.map fun entry => entry.1.key).length + k) := by
  rw [names_of_entries hg, List.map_append, List.length_map]

theorem getElem?_behind (hg : entries g = front ++ l) (k : ℕ) :
    (entries g)[front.length + k]? = l[k]? := by
  rw [hg, List.getElem?_append_right (Nat.le_add_right _ _), Nat.add_sub_cancel_left]

/-- A leaf that is left out. -/
theorem shift_dropNode (h : levelNode g i = some node) (hnot : node.key ∉ logicalOperators)
    (ht : t ≤ i) : Shift g (modifyAt dropNode g [i]) t fun j => if j < i then j else j + 1 := by
  obtain ⟨front, items, back, rfl, hold, hnew, -⟩ := entries_split h
  refine ⟨?_, ?_, ?_, ?_, ?_⟩
  · intro component y hy hwhich
    by_cases hlt : y < front.length
    · obtain ⟨hnames, hentry⟩ := names_front hold hnew hlt component
      exact ⟨y, hnames.mpr hy, if_pos hlt, hentry⟩
    · have hname : (nameAndCounter component).1 ∈ logicalOperators :=
        hwhich.resolve_left fun hyt => hlt (Nat.lt_of_lt_of_le hyt ht)
      have hne : node.key ≠ (nameAndCounter component).1 := fun heq => hnot (heq ▸ hname)
      obtain ⟨k, rfl⟩ := exists_behind hold hne hy hlt
      refine ⟨front.length + k, ?_, if_neg (by omega), ?_⟩
      · rw [names_behind hold] at hy
        rw [names_behind hnew]
        exact (isOccurrence_leftOut hne).mp hy
      · rw [getElem?_behind hnew, getElem?_behind hold]
        rfl
  · intro component y hyt
    exact (names_front hold hnew (Nat.lt_of_lt_of_le hyt ht) component).1.mp
  · rw [keys_eq, hnew, List.length_map, List.length_append]
    omega
  · intro x y hle
    split_ifs <;> omega
  · intro y
    split_ifs <;> omega

/-- A leaf that is renamed. -/
theorem shift_setKey (h : levelNode g i = some node) (hnot : node.key ∉ logicalOperators)
    {key : Text} (hkey : key ∉ logicalOperators) (ht : t ≤ i) :
    Shift g (modifyAt (setKey key) g [i]) t id := by
  obtain ⟨front, items, back, rfl, hold, -, hrenamed⟩ := entries_split h
  have hnew := hrenamed key
  have hwith : (node.withKey key).key = key := by cases node <;> rfl
  refine ⟨?_, ?_, ?_, fun _ _ hle => hle, Nat.le_refl⟩
  · intro component y hy hwhich
    by_cases hlt : y < front.length
    · obtain ⟨hnames, hentry⟩ := names_front hold hnew hlt component
      exact ⟨y, hnames.mpr hy, rfl, hentry⟩
    · have hname : (nameAndCounter component).1 ∈ logicalOperators :=
        hwhich.resolve_left fun hyt => hlt (Nat.lt_of_lt_of_le hyt ht)
      have hne : node.key ≠ (nameAndCounter component).1 := fun heq => hnot (heq ▸ hname)
      have hne' : (node.withKey key).key ≠ (nameAndCounter component).1 :=
        fun heq => hkey (hwith ▸ heq ▸ hname)
      obtain ⟨k, rfl⟩ := exists_behind hold hne hy hlt
      refine ⟨front.length + (k + 1), ?_, rfl, ?_⟩
      · rw [names_behind hold] at hy
        rw [names_behind hnew]
        exact (isOccurrence_replaced hne hne').mp hy
      · rw [getElem?_behind hnew, getElem?_behind hold]
        rfl
  · intro component y hyt
    exact (names_front hold hnew (Nat.lt_of_lt_of_le hyt ht) component).1.mp
  · rw [keys_eq, hnew, List.length_map, List.length_append]
    omega

/-- Nodes that are added at the end. -/
theorem shift_id (ht : t ≤ g.keys.length) : Shift g g t id :=
  ⟨fun _ y hy _ => ⟨y, hy, rfl, rfl⟩, fun _ _ _ hy => hy, ht, fun _ _ hle => hle, Nat.le_refl⟩

theorem shift_append (new : Filters) (ht : t ≤ g.keys.length) : Shift g (g.append new) t id := by
  refine ⟨?_, ?_, ?_, fun _ _ hle => hle, Nat.le_refl⟩
  · intro component y hy _
    have hlt := hy.lt_length
    refine ⟨y, ?_, rfl, ?_⟩
    · unfold Names at hy ⊢
      rw [keys_append, isOccurrence_append hlt]
      exact hy
    · rw [keys_eq, List.length_map] at hlt
      rw [entries_append, List.getElem?_append_left hlt]
  · intro component y hyt hy
    unfold Names at hy ⊢
    rw [keys_append, isOccurrence_append (Nat.lt_of_lt_of_le hyt ht)] at hy
    exact hy
  · rw [keys_append, List.length_append]
    omega

end Shifts

section Origins

variable {up : Loc} {origin : ℕ → ℕ} {σ : Loc → Loc}

/-- Places are moved within one level only. -/
def Lifts (σ : Loc → Loc) (up : Loc) (origin : ℕ → ℕ) : Prop :=
  (∀ y inner, σ (up ++ y :: inner) = up ++ origin y :: inner) ∧
    ∀ loc, (∀ y inner, loc ≠ up ++ y :: inner) → σ loc = loc

theorem lifts_id (up : Loc) : Lifts id up id :=
  ⟨fun _ _ => rfl, fun _ _ => rfl⟩

theorem lifts_restored (up : Loc) (i : ℕ) :
    Lifts (restored (up ++ [i])) up fun j => if j < i then j else j + 1 :=
  ⟨fun y inner => restored_below up i y inner, fun _ h => restored_other h⟩

theorem concat_eq {level inner : Loc} {x z : ℕ} (h : level ++ [x] = up ++ z :: inner) :
    level = up ∧ x = z ∨ ∃ more, level = up ++ z :: more := by
  obtain rfl | ⟨more, w, rfl⟩ := List.eq_nil_or_concat inner
  · obtain ⟨rfl, hx⟩ := List.append_inj' h rfl
    exact .inl ⟨rfl, List.singleton_inj.mp hx⟩
  · rw [List.concat_eq_append, ← List.cons_append, ← List.append_assoc] at h
    exact .inr ⟨more, (List.append_inj' h rfl).1⟩

/-- Within a level the order stays. -/
theorem lifts_behind (h : Lifts σ up origin) (hmono : ∀ x y, x ≤ y → origin x ≤ origin y)
    {p q : Loc} (hbehind : Behind p q) : Behind (σ p) (σ q) := by
  obtain ⟨level, x, y, rfl, rfl, hle⟩ := hbehind
  obtain ⟨hbelow, hother⟩ := h
  by_cases hlevel : level = up
  · subst hlevel
    exact ⟨level, origin x, origin y, hbelow x [], hbelow y [], hmono x y hle⟩
  by_cases hdeeper : ∃ z more, level = up ++ z :: more
  · obtain ⟨z, more, rfl⟩ := hdeeper
    refine ⟨up ++ origin z :: more, x, y, ?_, ?_, hle⟩
    all_goals rw [List.append_assoc, List.cons_append, hbelow, List.append_assoc]; rfl
  · have hsame (w : ℕ) : σ (level ++ [w]) = level ++ [w] := by
      refine hother _ fun z inner heq => ?_
      obtain ⟨hup, -⟩ | ⟨more, hmore⟩ := concat_eq heq
      · exact hlevel hup
      · exact hdeeper ⟨z, more, hmore⟩
    exact ⟨level, x, y, hsame x, hsame y, hle⟩

end Origins

section Edits

variable {f g : Filters} {up now : Loc} {base components : List Text} {component : Text}
  {change : Filters → Filters} {origin : ℕ → ℕ} {σ : Loc → Loc} {t : ℕ}

/-- A path that leads to a leaf that stands before the change, or through its groups, leads there
afterwards. -/
theorem place_shift (hplace : Place components f now)
    (hform : ∀ component ∈ components.dropLast, (nameAndCounter component).1 ∈ logicalOperators)
    (hg : levelAt f up = some g) (hshift : Shift g (change g) t origin)
    (hlifts : Lifts σ up origin) (hbefore : ∀ y, now = up ++ [y] → y < t) :
    ∃ now', Place components (changeLevel change f up) now' ∧ σ now' = now ∧
      nodeAt (changeLevel change f up) now' = nodeAt f now := by
  obtain ⟨y, inner, rfl⟩ | hother := below_or up now
  · obtain ⟨front, back, rfl, hback, hchanged⟩ :=
      place_changeLevel change hplace hg (List.cons_ne_nil y inner)
    have hmoved : ∃ y', Place back (change g) (y' :: inner) ∧ origin y' = y ∧
        (entries (change g))[y']? = (entries g)[y]? := by
      cases hback with
      | last hlast =>
        obtain ⟨y', hy', horigin, hentry⟩ := hshift.moved _ y hlast (.inl (hbefore y rfl))
        exact ⟨y', .last hy', horigin, hentry⟩
      | @step component back _ items _ _ hfirst hitems hrest =>
        have hname : (nameAndCounter component).1 ∈ logicalOperators := by
          refine hform component ?_
          cases hrest <;> simp
        obtain ⟨y', hy', horigin, hentry⟩ := hshift.moved _ y hfirst (.inr hname)
        refine ⟨y', .step hy' ?_ hrest, horigin, hentry⟩
        rw [itemsAt_eq, hentry, ← itemsAt_eq, hitems]
    obtain ⟨y', hplace', horigin, hentry⟩ := hmoved
    refine ⟨up ++ y' :: inner, hchanged _ hplace', ?_, ?_⟩
    · rw [hlifts.1, horigin]
    · rw [nodeAt_changeLevel hg, nodeAt_append, hg]
      exact nodeAt_congr hentry inner
  · exact ⟨now, place_changeLevel_other hplace hother, hlifts.2 now hother,
      nodeAt_changeLevel_other hother⟩

theorem setItems_self {items : Filters} {i : ℕ} (h : f.itemsAt i = some items) :
    setItems items f i = f := by
  induction f generalizing i with
  | nil => cases h
  | leaf key op values rest ih => cases i with
    | zero => cases h
    | succ i => exact congrArg (Filters.leaf key op values) (ih h)
  | group key items' rest _ ih => cases i with
    | zero =>
      obtain rfl := Option.some.inj h
      rfl
    | succ i => exact congrArg (Filters.group key items') (ih h)

theorem changeLevel_id (hg : levelAt f up = some g) : changeLevel id f up = f := by
  induction up generalizing f with
  | nil => rfl
  | cons i up ih =>
    obtain ⟨items, hitems, hlevel⟩ := Option.bind_eq_some_iff.mp hg
    rw [changeLevel_cons hitems, ih hlevel, setItems_self hitems]

/-- The path of a leaf is looked up on the level that its base leads to. -/
theorem lookup_level (hplace : Place (rootOp :: base) f up) (hg : levelAt f up = some g)
    (hform : WellWritten (base ++ [component])) :
    (∃ i, Names component g i ∧
      lookup f (joinPath (base ++ [component])) = .ok (some (up ++ [i]))) ∨
    lookup f (joinPath (base ++ [component])) = .ok none := by
  have hlookup : lookup f (joinPath (base ++ [component])) =
      (filterNode [component] g).map (Option.map (up ++ ·)) := by
    have hcomponents : splitPath (rootPath (joinPath (base ++ [component]))) =
        rootOp :: (base ++ [component]) := components_joinPath hform
    rw [lookup, hcomponents, ← List.cons_append,
      filterNode_append hplace hg (List.cons_ne_nil _ _)]
  cases hoccurrence : occurrence (nameAndCounter component).1 (nameAndCounter component).2
      g.keys with
  | none =>
    refine .inr (hlookup.trans ?_)
    simp only [filterNode, hoccurrence]
    rfl
  | some i =>
    refine .inl ⟨i, occurrence_names.mp hoccurrence, hlookup.trans ?_⟩
    simp only [filterNode, hoccurrence, if_true]
    rfl

theorem groupComponents_joinPath (hbase : ∀ node ∈ base, CleanNode node) (key : Text) :
    groupComponents (joinPath base) (some key) = rootOp :: base ∧
      addedKey (joinPath base) (some key) = key := by
  have hsplit : splitPath (joinPath base) = base := by
    cases hnodes : base with
    | nil => rfl
    | cons node rest =>
      rw [← hnodes]
      exact splitPath_joinPath base (by simp [hnodes]) hbase
  unfold groupComponents addedKey
  rw [hsplit]
  constructor
  · rw [Option.toList_some, List.dropLast_concat]
    refine splitPath_joinPath _ (List.cons_ne_nil _ _) ?_
    exact List.forall_mem_cons.mpr ⟨cleanNode_rootOp, hbase⟩
  · rw [Option.toList_some, List.getLast?_concat]
    rfl

/-- An edit on the path of a leaf shifts the level that its base leads to. -/
theorem apply_shift (hplace : Place (rootOp :: base) f up) (hg : levelAt f up = some g)
    (hform : WellWritten (base ++ [component])) (ht : t ≤ g.keys.length)
    (hhere : ∀ i, Names component g i → t ≤ i) (edit : Edit) (hvalid : edit.Valid) :
    ∃ (change : Filters → Filters) (origin : ℕ → ℕ),
      edit.apply f (joinPath (base ++ [component])) = .ok (changeLevel change f up) ∧
        Shift g (change g) t origin ∧
          Lifts (edit.origin f (joinPath (base ++ [component]))) up origin := by
  obtain ⟨front, key, n, hnodes, hplain, hnot, hfront⟩ := id hform
  obtain ⟨rfl, hlast⟩ := List.append_inj' hnodes rfl
  obtain rfl := List.singleton_inj.mp hlast
  have hnode {i : ℕ} (h : Names (numbered key n) g i) :
      ∃ node, levelNode g i = some node ∧ node.key ∉ logicalOperators := by
    obtain ⟨node, hnode, hkey⟩ := Option.map_eq_some_iff.mp ((levelNode_key g i).trans h.1)
    rw [nameAndCounter_numbered key n hplain.2] at hkey
    exact ⟨node, hnode, hkey ▸ hnot⟩
  cases edit with
  | delete =>
    obtain ⟨i, hnames, hlookup⟩ | hlookup := lookup_level hplace hg hform
    · obtain ⟨node, hlevel, hkey⟩ := hnode hnames
      refine ⟨(modifyAt dropNode · [i]), _, ?_, shift_dropNode hlevel hkey (hhere i hnames), ?_⟩
      · simp only [Edit.apply, delFilter, hlookup, bind, Except.bind, pure, Except.pure,
          modifyAt_eq]
      · simp only [Edit.origin, hlookup]
        exact lifts_restored up i
    · refine ⟨id, id, ?_, shift_id ht, ?_⟩
      · simp only [Edit.apply, delFilter, hlookup, bind, Except.bind, pure, Except.pure,
          changeLevel_id hg]
      · simp only [Edit.origin, hlookup]
        exact lifts_id up
  | rename new =>
    obtain ⟨i, hnames, hlookup⟩ | hlookup := lookup_level hplace hg hform
    · obtain ⟨node, hlevel, hkey⟩ := hnode hnames
      refine ⟨(modifyAt (setKey new) · [i]), id, ?_,
        shift_setKey hlevel hkey hvalid (hhere i hnames), lifts_id up⟩
      simp only [Edit.apply, setFilterKey, hlookup, bind, Except.bind, pure, Except.pure,
        modifyAt_eq]
    · refine ⟨id, id, ?_, shift_id ht, lifts_id up⟩
      simp only [Edit.apply, setFilterKey, hlookup, bind, Except.bind, pure, Except.pure,
        changeLevel_id hg]
  | add new value =>
    have hclean : ∀ node ∈ base, CleanNode node := fun node h => (hfront node h).1
    obtain ⟨hgroup, hadded⟩ := groupComponents_joinPath hclean new
    obtain ⟨hlogical, comp, hcomparison⟩ := hvalid
    have hpair : normalizePair (addedKey (joinPath base) (some new)) value =
        .ok (.leaf new comp.1 comp.2 .nil) := by
      rw [hadded]
      simp [normalizePair, normalizeItems, Json.key?, hlogical, hcomparison, bind, Except.bind,
        pure, Except.pure]
    refine ⟨(·.append (.leaf new comp.1 comp.2 .nil)), id, ?_, shift_append _ ht, lifts_id up⟩
    have hreaches : Reaches (groupComponents (joinPath base) (some new)) f (some up) :=
      hgroup.symm ▸ hplace.reaches
    rw [Edit.apply, basedirFromPath_joinPath base _ hform.clean.2,
      addFilter_reaches hreaches hg hpair, modifyAt_pushItems hreaches.ne_nil hg]

end Edits

section Visits

variable (tree : FilterTree) (rest : List (List Text × Loc))

/-- The paths that are left lead to the leaves that they led to at first. -/
structure Remaining (walk : Walk) : Prop where
  kept : ∀ e ∈ rest, ∃ now, Place (rootOp :: e.1) walk.tree now ∧ walk.origin now = 0 :: e.2 ∧
    nodeAt walk.tree now = nodeAt tree.filters (0 :: e.2)
  mono : ∀ p q, Behind p q → Behind (walk.origin p) (walk.origin q)

/-- On the level of the current path the leaves that are left stand before an index, and what the
path leads to does not. -/
structure Current (base : List Text) (component : Text) (walk : Walk) (up : Loc) (g : Filters)
    (t : ℕ) : Prop where
  level : Place (rootOp :: base) walk.tree up
  nodes : levelAt walk.tree up = some g
  length : t ≤ g.keys.length
  here : ∀ i, Names component g i → t ≤ i
  before : ∀ e ∈ rest, ∀ y, Place (rootOp :: e.1) walk.tree (up ++ [y]) → y < t

variable {tree rest} {walk : Walk} {base : List Text} {component : Text} {up : Loc} {g : Filters}
  {t : ℕ}

theorem dropLast_logical {nodes : List Text} (h : WellWritten nodes) :
    ∀ component ∈ (rootOp :: nodes).dropLast,
      (nameAndCounter component).1 ∈ logicalOperators := by
  obtain ⟨base, key, n, rfl, -, -, hbase⟩ := h
  rw [← List.cons_append, List.dropLast_concat]
  exact List.forall_mem_cons.mpr ⟨by decide, fun node h => (hbase node h).2⟩

/-- One edit on the current path. -/
theorem edit_remaining (hremaining : Remaining tree rest walk)
    (hcurrent : Current rest base component walk up g t)
    (hforms : ∀ e ∈ rest, WellWritten e.1) (hform : WellWritten (base ++ [component]))
    (edit : Edit) (hvalid : edit.Valid) :
    ∃ walk' g', walk.edit (joinPath (base ++ [component])) edit = .ok walk' ∧
      Remaining tree rest walk' ∧ Current rest base component walk' up g' t := by
  obtain ⟨change, origin, happly, hshift, hlifts⟩ := apply_shift hcurrent.level hcurrent.nodes
    hform hcurrent.length hcurrent.here edit hvalid
  have hmoved {e : List Text × Loc} (he : e ∈ rest) {now : Loc}
      (hnow : Place (rootOp :: e.1) walk.tree now) :=
    place_shift hnow (dropLast_logical (hforms e he)) hcurrent.nodes hshift hlifts
      fun y hy => hcurrent.before e he y (hy ▸ hnow)
  refine ⟨_, change g, by rw [Walk.edit, happly]; rfl, ⟨?_, ?_⟩, ⟨?_, ?_, hshift.length, ?_, ?_⟩⟩
  · intro e he
    obtain ⟨now, hnow, horigin, hnode⟩ := hremaining.kept e he
    obtain ⟨now', hnow', hsame, hnode'⟩ := hmoved he hnow
    exact ⟨now', hnow', (congrArg walk.origin hsame).trans horigin, hnode'.trans hnode⟩
  · intro p q hbehind
    exact hremaining.mono _ _ (lifts_behind hlifts hshift.mono hbehind)
  · refine place_changeLevel_other hcurrent.level fun i inner heq => ?_
    have hlength := congrArg List.length heq
    simp at hlength
  · exact levelAt_changeLevel hcurrent.nodes
  · intro i hnames
    by_contra hlt
    exact hlt (hcurrent.here i (hshift.front _ i (Nat.lt_of_not_le hlt) hnames))
  · intro e he y hy
    obtain ⟨now, hnow, -, -⟩ := hremaining.kept e he
    obtain ⟨now', hnow', hsame, -⟩ := hmoved he hnow
    obtain rfl := hy.unique hnow'
    rw [hlifts.1] at hsame
    have hlt := hcurrent.before e he (origin y) (hsame ▸ hnow)
    exact Nat.lt_of_le_of_lt (hshift.le y) hlt

/-- All edits on it. -/
theorem visit_remaining (hforms : ∀ e ∈ rest, WellWritten e.1)
    (hform : WellWritten (base ++ [component])) (edits : List Edit)
    (hvalid : ∀ edit ∈ edits, edit.Valid) (hremaining : Remaining tree rest walk)
    (hcurrent : Current rest base component walk up g t) :
    ∃ walk', walk.visit (joinPath (base ++ [component]), edits) = .ok walk' ∧
      Remaining tree rest walk' := by
  induction edits generalizing walk g with
  | nil => exact ⟨walk, rfl, hremaining⟩
  | cons edit edits ih =>
    obtain ⟨hfirst, hothers⟩ := List.forall_mem_cons.mp hvalid
    obtain ⟨mid, g', hedit, hremaining', hcurrent'⟩ :=
      edit_remaining hremaining hcurrent hforms hform edit hfirst
    obtain ⟨walk', hvisit, hlast⟩ := ih hothers hremaining' hcurrent'
    refine ⟨walk', ?_, hlast⟩
    rw [Walk.visit, List.foldlM_cons]
    exact bind_ok.mpr ⟨mid, hedit, hvisit⟩

/-- The leaves that are left on the level of the next one stand before it. -/
theorem exists_current {e : List Text × Loc} (hremaining : Remaining tree (e :: rest) walk)
    (hpairs : ∀ later ∈ rest, ¬ Behind (0 :: e.2) (0 :: later.2))
    (hnodes : e.1 = base ++ [component]) :
    ∃ up g t, Current rest base component walk up g t := by
  obtain ⟨now, hnow, horigin, -⟩ := hremaining.kept e List.mem_cons_self
  rw [hnodes, ← List.cons_append] at hnow
  obtain ⟨up, t, g, rfl, hup, hg, hnames⟩ := place_concat (List.cons_ne_nil _ _) hnow
  refine ⟨up, g, t, hup, hg, Nat.le_of_lt hnames.lt_length, ?_, ?_⟩
  · intro i hi
    exact Nat.le_of_eq (hnames.unique hi)
  · intro later hlater y hy
    by_contra hlt
    obtain ⟨now', hnow', horigin', -⟩ := hremaining.kept later (List.mem_cons_of_mem e hlater)
    obtain rfl := hy.unique hnow'
    have hbehind := hremaining.mono _ _ ⟨up, t, y, rfl, rfl, Nat.le_of_not_lt hlt⟩
    rw [horigin, horigin'] at hbehind
    exact hpairs later hlater hbehind

/-- The whole walk. -/
theorem walk_remaining (visits : List (Text × List Edit)) (entries : List (List Text × Loc))
    (hvisits : visits.map Prod.fst = entries.map fun e => joinPath e.1)
    (hforms : ∀ e ∈ entries ++ rest, WellWritten e.1)
    (hpairs : (entries ++ rest).Pairwise fun p q => ¬ Behind (0 :: p.2) (0 :: q.2))
    (hvalid : ∀ visit ∈ visits, ∀ edit ∈ visit.2, edit.Valid)
    (hremaining : Remaining tree (entries ++ rest) walk) :
    ∃ walk', visits.foldlM Walk.visit walk = .ok walk' ∧ Remaining tree rest walk' := by
  induction visits generalizing entries walk with
  | nil =>
    cases entries with
    | nil => exact ⟨walk, rfl, hremaining⟩
    | cons e entries => cases hvisits
  | cons visit visits ih =>
    cases entries with
    | nil => cases hvisits
    | cons e entries =>
      obtain ⟨hpath, hpaths⟩ := List.cons.inj hvisits
      obtain ⟨hfirst, hothers⟩ := List.forall_mem_cons.mp hvalid
      obtain ⟨hhere, hpairs'⟩ := List.pairwise_cons.mp hpairs
      obtain ⟨hform, hforms'⟩ := List.forall_mem_cons.mp hforms
      obtain ⟨base, key, n, hnodes, -⟩ := id hform
      obtain ⟨up, g, t, hcurrent⟩ := exists_current hremaining hhere hnodes
      have hlater : Remaining tree (entries ++ rest) walk :=
        ⟨fun later h => hremaining.kept later (List.mem_cons_of_mem e h), hremaining.mono⟩
      obtain ⟨mid, hvisit, hmid⟩ :=
        visit_remaining hforms' (hnodes ▸ hform) visit.2 hfirst hlater hcurrent
      obtain ⟨walk', hwalk, hlast⟩ := ih entries hpaths hforms' hpairs' hothers hmid
      refine ⟨walk', ?_, hlast⟩
      rw [List.foldlM_cons]
      refine bind_ok.mpr ⟨mid, ?_, hwalk⟩
      have hsame : visit.1 = joinPath e.1 := hpath
      rw [← hvisit, ← hnodes, ← hsame]

end Visits

section Main

variable {tree : FilterTree}

/-- The walk over a tree with plain keys. -/
theorem stable_of_plainKeys (hplain : PlainKeys tree) : Stable tree := by
  intro visits rest hlist hvalid
  have hpaths : visits.map Prod.fst ++ rest = (listing tree.items).map fun e => joinPath e.1 :=
    Except.ok.inj (hlist.symm.trans (filterList_listing tree))
  obtain ⟨entries, left, hsplit, hentries, rfl⟩ := List.map_eq_append_iff.mp hpaths.symm
  have hplaces (e : List Text × Loc) (he : e ∈ entries ++ left) :=
    listing_place hplain (hsplit ▸ he)
  have hpairs : (entries ++ left).Pairwise fun p q => ¬ Behind (0 :: p.2) (0 :: q.2) := by
    rw [← hsplit]
    refine (listing_pairwise tree.items).imp_of_mem fun {p q} hp _ hnot hbehind => hnot ?_
    obtain ⟨k, inner, heq⟩ :=
      List.exists_cons_of_ne_nil ((mem_listing tree.items p.1 p.2).mp hp).ne_nil
    rw [heq] at hbehind ⊢
    exact (behind_cons hbehind).2
  have hstart : Remaining tree (entries ++ left) ⟨tree.filters, id⟩ :=
    ⟨fun e he => ⟨0 :: e.2, (hplaces e he).1, rfl, rfl⟩, fun _ _ h => h⟩
  obtain ⟨walk, hwalk, hremaining⟩ := walk_remaining visits entries hentries.symm
    (fun e he => (hplaces e he).2) hpairs hvalid hstart
  refine ⟨walk, hwalk, ?_⟩
  intro path hpath
  obtain ⟨e, he, rfl⟩ := List.mem_map.mp hpath
  obtain ⟨hplace, hform⟩ := hplaces e (List.mem_append_right _ he)
  obtain ⟨now, hnow, horigin, hnode⟩ := hremaining.kept e he
  have hlookup {f : Filters} {loc : Loc} (h : Place (rootOp :: e.1) f loc) :
      lookup f (joinPath e.1) = .ok (some loc) :=
    (congrArg (filterNode · f) (components_joinPath hform)).trans h.filterNode_eq
  exact ⟨0 :: e.2, now, hlookup hplace, hlookup hnow, horigin, hnode⟩

/-- Filter paths address one node each: the listed ones the leaves, also while one goes through
them; any path the node that it is right for; and the path of a filter that is added its group. -/
structure Addressed (tree : FilterTree) (path : Text) (key : Option Text) : Prop where
  listed : Listed tree
  stable : Stable tree
  exact : Exact tree.filters path
  adds : Adds tree.filters path key

/-- Paths address one node each if and only if the keys of the tree are plain, and the path and
that of the group are right for a node or lead to none without their missing components. -/
theorem addressed_iff (tree : FilterTree) (path : Text) (key : Option Text) :
    Addressed tree path key ↔ PlainKeys tree ∧
      ((∃ loc, Place (componentsOf path) tree.filters loc) ∨
        ∀ found, ¬ Reaches (componentsOf path) tree.filters found) ∧
      ((∃ loc, Place (groupComponents path key) tree.filters loc) ∨
        ∀ loc g, Reaches (groupComponents path key) tree.filters (some loc) →
          levelAt tree.filters loc ≠ some g) := by
  constructor
  · rintro ⟨hlisted, -, hexact, hadds⟩
    exact ⟨listed_iff.mp hlisted, (exact_iff_place _ _).mp hexact, (adds_iff _ _ _).mp hadds⟩
  · rintro ⟨hplain, hpath, hgroup⟩
    exact ⟨listed_iff.mpr hplain, stable_of_plainKeys hplain, (exact_iff_place _ _).mpr hpath,
      (adds_iff _ _ _).mpr hgroup⟩

/-- A filter for the identifier alone. -/
def oneId : FilterTree where
  items := .leaf "id".toList "=".toList [.scalar "1".toList] .nil
  wellFormed := ⟨by decide, trivial⟩

/-- There is no filter on a name in it, and nothing below one. -/
theorem name_missing (loc : Loc) :
    ¬ Place (componentsOf "name::id".toList) oneId.filters loc := by
  have hcomponents : componentsOf "name::id".toList = [rootOp, "name".toList, "id".toList] := by
    decide
  rw [hcomponents]
  rintro (_ | ⟨-, hitems, hrest⟩)
  rename_i items i inner
  cases i with
  | zero =>
    obtain rfl := Option.some.inj hitems
    have hmissing : occurrence (nameAndCounter "name".toList).1 (nameAndCounter "name".toList).2
        oneId.items.keys = none := by
      decide
    cases hrest with
    | step hname _ _ => exact occurrence_none hmissing _ hname
  | succ i => cases hitems

/-- Yet its path below a name is one of a filter. -/
theorem name_passed_over : hasFilter oneId.filters "name::id".toList = .ok true ∧
    ¬ Addressed oneId "name::id".toList none := by
  have hhas : hasFilter oneId.filters "name::id".toList = .ok true := by
    decide
  refine ⟨hhas, fun haddressed => ?_⟩
  have hnot := (haddressed.exact.2 name_missing).has
  rw [hhas] at hnot
  cases hnot

end Main

end Qvd.FilterWalks
