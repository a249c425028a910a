import Qvd.FilterContext

/-!
The nodes of a filter tree by their places, and what a change of one level does to them. The
operations on a node change the level that it stands on and leave all other levels as they are.
-/
namespace Qvd.FilterNodes

open NumberedPath RestFilter FilterContext

section Nodes

/-- A comparison, or the key of a group. -/
inductive Node
  | leaf (key op : Text) (values : List Json)
  | group (key : Text)

def Node.key : Node → Text
  | .leaf key _ _ | .group key => key

def Node.withKey (key : Text) : Node → Node
  | .leaf _ op values => .leaf key op values
  | .group _ => .group key

/-- The nodes of a level, with the levels that they hold. -/
def entries : Filters → List (Node × Option Filters)
  | .nil => []
  | .leaf key op values rest => (.leaf key op values, none) :: entries rest
  | .group key items rest => (.group key, some items) :: entries rest

def levelNode (f : Filters) (i : ℕ) : Option Node := (entries f)[i]?.map Prod.fst

/-- The level that the groups at some indices lead to. -/
def levelAt : Filters → Loc → Option Filters
  | f, [] => some f
  | f, i :: up => (f.itemsAt i).bind (levelAt · up)

def nodeAt : Filters → Loc → Option Node
  | _, [] => none
  | f, [i] => levelNode f i
  | f, i :: j :: loc => (f.itemsAt i).bind (nodeAt · (j :: loc))

theorem keys_eq (f : Filters) : f.keys = (entries f).map fun entry => entry.1.key := by
  induction f with
  | nil => rfl
  | leaf key op values rest ih => exact congrArg (key :: ·) ih
  | group key items rest _ ih => exact congrArg (key :: ·) ih

theorem itemsAt_eq (f : Filters) (i : ℕ) : f.itemsAt i = (entries f)[i]?.bind Prod.snd := by
  induction f generalizing i with
  | nil => rfl
  | leaf key op values rest ih => cases i with
    | zero => rfl
    | succ i => exact ih i
  | group key items rest _ ih => cases i with
    | zero => rfl
    | succ i => exact ih i

theorem entries_append (f g : Filters) : entries (f.append g) = entries f ++ entries g := by
  induction f with
  | nil => rfl
  | leaf key op values rest ih => exact congrArg (_ :: ·) ih
  | group key items rest _ ih => exact congrArg (_ :: ·) ih

theorem levelNode_key (f : Filters) (i : ℕ) : (levelNode f i).map Node.key = f.keys[i]? := by
  rw [keys_eq, List.getElem?_map, levelNode, Option.map_map]
  rfl

theorem nodeAt_append (f : Filters) (up : Loc) (i : ℕ) (loc : Loc) :
    nodeAt f (up ++ i :: loc) = (levelAt f up).bind (nodeAt · (i :: loc)) := by
  induction up generalizing f with
  | nil => rfl
  | cons j up ih =>
    have hcons : nodeAt f (j :: (up ++ i :: loc)) =
        (f.itemsAt j).bind (nodeAt · (up ++ i :: loc)) := by
      cases up <;> rfl
    rw [List.cons_append, hcons, levelAt]
    cases f.itemsAt j with
    | none => rfl
    | some items => exact ih items

theorem levelAt_append (f : Filters) (up loc : Loc) :
    levelAt f (up ++ loc) = (levelAt f up).bind (levelAt · loc) := by
  induction up generalizing f with
  | nil => rfl
  | cons j up ih =>
    rw [List.cons_append, levelAt, levelAt]
    cases f.itemsAt j with
    | none => rfl
    | some items => exact ih items

/-- A place is that of a node of a level. -/
theorem exists_level {f : Filters} {loc : Loc} {node : Node} (h : nodeAt f loc = some node) :
    ∃ up i g, loc = up ++ [i] ∧ levelAt f up = some g ∧ levelNode g i = some node := by
  obtain rfl | ⟨up, i, rfl⟩ := List.eq_nil_or_concat loc
  · cases h
  · rw [List.concat_eq_append, nodeAt_append] at h
    obtain ⟨g, hg, hnode⟩ := Option.bind_eq_some_iff.mp h
    exact ⟨up, i, g, List.concat_eq_append, hg, hnode⟩

/-- A comparison holds no level, and a group holds one. -/
theorem entries_cases (f : Filters) : ∀ entry ∈ entries f,
    (∃ key op values, entry = (.leaf key op values, none)) ∨
      ∃ key items, entry = (.group key, some items) := by
  induction f with
  | nil => exact fun _ h => (List.not_mem_nil h).elim
  | leaf key op values rest ih =>
    exact List.forall_mem_cons.mpr ⟨.inl ⟨key, op, values, rfl⟩, ih⟩
  | group key items rest _ ih => exact List.forall_mem_cons.mpr ⟨.inr ⟨key, items, rfl⟩, ih⟩

/-- There is a level at a place exactly if a group stands there. -/
theorem levelAt_iff {f : Filters} {up : Loc} (hne : up ≠ []) :
    (∃ g, levelAt f up = some g) ↔ ∃ key, nodeAt f up = some (.group key) := by
  obtain rfl | ⟨up, i, rfl⟩ := List.eq_nil_or_concat up
  · exact absurd rfl hne
  · rw [List.concat_eq_append, levelAt_append, nodeAt_append]
    cases levelAt f up with
    | none => simp
    | some level =>
      change (∃ g, (level.itemsAt i).bind some = some g) ↔
        ∃ key, levelNode level i = some (.group key)
      unfold levelNode
      rw [itemsAt_eq]
      cases hentry : (entries level)[i]? with
      | none => simp
      | some entry =>
        obtain ⟨key, op, values, rfl⟩ | ⟨key, items, rfl⟩ :=
          entries_cases level entry (List.mem_of_getElem? hentry)
        · simp
        · simp

end Nodes

section Levels

/-- Give the group at an index another level. -/
def setItems (items : Filters) : Filters → ℕ → Filters
  | .group key _ rest, 0 => .group key items rest
  | .group key old rest, i + 1 => .group key old (setItems items rest i)
  | .leaf key op values rest, i + 1 => .leaf key op values (setItems items rest i)
  | f, _ => f

variable {f items : Filters} {i : ℕ}

theorem entries_setItems (f new : Filters) (i : ℕ) :
    entries (setItems new f i) =
      (entries f).modify i fun entry => (entry.1, entry.2.map fun _ => new) := by
  induction f generalizing i with
  | nil => cases i <;> rfl
  | leaf key op values rest ih => cases i with
    | zero => rfl
    | succ i => exact congrArg (_ :: ·) (ih i)
  | group key items rest _ ih => cases i with
    | zero => rfl
    | succ i => exact congrArg (_ :: ·) (ih i)

theorem levelNode_setItems (new : Filters) (j : ℕ) :
    levelNode (setItems new f i) j = levelNode f j := by
  unfold levelNode
  rw [entries_setItems, List.getElem?_modify]
  cases (entries f)[j]? with
  | none => rfl
  | some entry => split_ifs <;> rfl

theorem itemsAt_setItems (h : f.itemsAt i = some items) (new : Filters) :
    (setItems new f i).itemsAt i = some new := by
  rw [itemsAt_eq] at h
  obtain ⟨entry, hentry, hitems⟩ := Option.bind_eq_some_iff.mp h
  rw [itemsAt_eq, entries_setItems, List.getElem?_modify, hentry]
  simp [hitems]

theorem itemsAt_setItems_ne (new : Filters) {j : ℕ} (hne : j ≠ i) :
    (setItems new f i).itemsAt j = f.itemsAt j := by
  rw [itemsAt_eq, itemsAt_eq, entries_setItems, List.getElem?_modify]
  simp [Ne.symm hne]

/-- Change the level that the groups at some indices lead to. -/
def changeLevel (change : Filters → Filters) : Filters → Loc → Filters
  | f, [] => change f
  | f, i :: up =>
    match f.itemsAt i with
    | none => f
    | some items => setItems (changeLevel change items up) f i

variable {change : Filters → Filters} {g : Filters} {up : Loc}

theorem changeLevel_cons (h : f.itemsAt i = some items) :
    changeLevel change f (i :: up) = setItems (changeLevel change items up) f i := by
  rw [changeLevel, h]

theorem levelAt_changeLevel (h : levelAt f up = some g) :
    levelAt (changeLevel change f up) up = some (change g) := by
  induction up generalizing f with
  | nil => exact congrArg (fun level => some (change level)) (Option.some.inj h)
  | cons i up ih =>
    obtain ⟨items, hitems, hg⟩ := Option.bind_eq_some_iff.mp h
    rw [changeLevel_cons hitems, levelAt, itemsAt_setItems hitems]
    exact ih hg

theorem nodeAt_changeLevel (h : levelAt f up = some g) (i : ℕ) (loc : Loc) :
    nodeAt (changeLevel change f up) (up ++ i :: loc) = nodeAt (change g) (i :: loc) := by
  rw [nodeAt_append, levelAt_changeLevel h]
  rfl

/-- Nodes that are not below the level stay as they are. -/
theorem nodeAt_changeLevel_other {other : Loc} (hother : ∀ i loc, other ≠ up ++ i :: loc) :
    nodeAt (changeLevel change f up) other = nodeAt f other := by
  induction up generalizing f other with
  | nil =>
    cases other with
    | nil => rfl
    | cons i loc => exact absurd rfl (hother i loc)
  | cons j up ih =>
    cases hitems : f.itemsAt j with
    | none => rw [changeLevel, hitems]
    | some items =>
      rw [changeLevel_cons hitems]
      match other with
      | [] => rfl
      | [i] => exact levelNode_setItems _ i
      | i :: k :: loc =>
        unfold nodeAt
        by_cases hsame : i = j
        · subst hsame
          rw [itemsAt_setItems hitems, hitems]
          exact ih fun i' loc' heq => hother i' loc' (congrArg (i :: ·) heq)
        · rw [itemsAt_setItems_ne _ hsame]

end Levels

section Changes

variable {f new : Filters} {edit : Filters → Filters}

theorem modifyAt_cons (f : Filters) (i j : ℕ) (loc : Loc) :
    modifyAt edit f (i :: j :: loc) = match f.itemsAt i with
      | none => f
      | some items => setItems (modifyAt edit items (j :: loc)) f i := by
  induction f generalizing i with
  | nil => cases i <;> rfl
  | leaf key op values rest ih => cases i with
    | zero => rfl
    | succ i =>
      rw [modifyAt, ih]
      cases hitems : rest.itemsAt i <;> simp [Filters.itemsAt, hitems, setItems]
  | group key items rest _ ih => cases i with
    | zero => rfl
    | succ i =>
      rw [modifyAt, ih]
      cases hitems : rest.itemsAt i <;> simp [Filters.itemsAt, hitems, setItems]

/-- A change of a node is one of its level. -/
theorem modifyAt_eq (f : Filters) (up : Loc) (i : ℕ) :
    modifyAt edit f (up ++ [i]) = changeLevel (modifyAt edit · [i]) f up := by
  induction up generalizing f with
  | nil => rfl
  | cons j up ih =>
    have hcons : modifyAt edit f (j :: (up ++ [i])) = match f.itemsAt j with
        | none => f
        | some items => setItems (modifyAt edit items (up ++ [i])) f j := by
      cases up <;> exact modifyAt_cons f j _ _
    rw [List.cons_append, hcons, changeLevel]
    cases f.itemsAt j with
    | none => rfl
    | some items => exact congrArg (setItems · f j) (ih items)

theorem changeLevel_append {change : Filters → Filters} (f : Filters) (up loc : Loc) :
    changeLevel change f (up ++ loc) = changeLevel (changeLevel change · loc) f up := by
  induction up generalizing f with
  | nil => rfl
  | cons j up ih =>
    rw [List.cons_append, changeLevel, changeLevel]
    cases f.itemsAt j with
    | none => rfl
    | some items => exact congrArg (setItems · f j) (ih items)

theorem changeLevel_congr {change change' : Filters → Filters} {up : Loc} {g : Filters}
    (h : levelAt f up = some g) (hsame : change g = change' g) :
    changeLevel change f up = changeLevel change' f up := by
  induction up generalizing f with
  | nil =>
    obtain rfl := Option.some.inj h
    exact hsame
  | cons i up ih =>
    obtain ⟨items, hitems, hg⟩ := Option.bind_eq_some_iff.mp h
    rw [changeLevel_cons hitems, changeLevel_cons hitems, ih hg]

theorem modifyAt_push {items : Filters} {i : ℕ} (h : f.itemsAt i = some items) :
    modifyAt (pushItems new) f [i] = setItems (items.append new) f i := by
  induction f generalizing i with
  | nil => cases h
  | leaf key op values rest ih => cases i with
    | zero => cases h
    | succ i => exact congrArg (Filters.leaf key op values) (ih h)
  | group key items' rest _ ih => cases i with
    | zero =>
      obtain rfl := Option.some.inj h
      rfl
    | succ i => exact congrArg (Filters.group key items') (ih h)

/-- Nodes that are pushed come to the end of the level. -/
theorem modifyAt_pushItems {up : Loc} {g : Filters} (hne : up ≠ []) (h : levelAt f up = some g) :
    modifyAt (pushItems new) f up = changeLevel (·.append new) f up := by
  obtain rfl | ⟨up, i, rfl⟩ := List.eq_nil_or_concat up
  · exact absurd rfl hne
  · rw [List.concat_eq_append] at h ⊢
    rw [levelAt_append] at h
    obtain ⟨outer, houter, hlevel⟩ := Option.bind_eq_some_iff.mp h
    obtain ⟨items, hitems, hg⟩ := Option.bind_eq_some_iff.mp hlevel
    obtain rfl := Option.some.inj hg
    rw [modifyAt_eq, changeLevel_append]
    refine changeLevel_congr houter ?_
    rw [modifyAt_push hitems, changeLevel_cons hitems]
    rfl

end Changes

section Frames

variable {f g new : Filters} {up : Loc} {i j : ℕ}

/-- Where a node stood before another one was left out. -/
def restored : Loc → Loc → Loc
  | [i], j :: loc => (if j < i then j else j + 1) :: loc
  | i :: gone, j :: loc => if j = i then j :: restored gone loc else j :: loc
  | _, loc => loc

theorem entries_dropNode (f : Filters) (i : ℕ) :
    entries (modifyAt dropNode f [i]) = (entries f).eraseIdx i := by
  induction f generalizing i with
  | nil => cases i <;> rfl
  | leaf key op values rest ih => cases i with
    | zero => rfl
    | succ i => exact congrArg (_ :: ·) (ih i)
  | group key items rest _ ih => cases i with
    | zero => rfl
    | succ i => exact congrArg (_ :: ·) (ih i)

theorem entries_setKey (key : Text) (f : Filters) (i : ℕ) :
    entries (modifyAt (setKey key) f [i]) =
      (entries f).modify i fun entry => (entry.1.withKey key, entry.2) := by
  induction f generalizing i with
  | nil => cases i <;> rfl
  | leaf key' op values rest ih => cases i with
    | zero => rfl
    | succ i => exact congrArg (_ :: ·) (ih i)
  | group key' items rest _ ih => cases i with
    | zero => rfl
    | succ i => exact congrArg (_ :: ·) (ih i)

/-- A value comes with the key that the node has. -/
theorem entries_setValue {entry : Node × Option Filters} (hnew : entries new = [entry])
    (hkey : (levelNode f i).map Node.key = some entry.1.key) :
    entries (modifyAt (setValue new) f [i]) = (entries f).set i entry := by
  have hsingle (key : Text) (rest : Filters) (hsame : key = entry.1.key) :
      entries (setValue new (.leaf key [] [] rest)) = entry :: entries rest ∧
        ∀ items, entries (setValue new (.group key items rest)) = entry :: entries rest := by
    subst hsame
    cases new with
    | nil => cases hnew
    | leaf key op values rest' =>
      obtain rfl := (List.cons.inj hnew).1
      exact ⟨rfl, fun _ => rfl⟩
    | group key items rest' =>
      obtain rfl := (List.cons.inj hnew).1
      exact ⟨rfl, fun _ => rfl⟩
  induction f generalizing i with
  | nil => cases hkey
  | leaf key op values rest ih => cases i with
    | zero => exact (hsingle key rest (Option.some.inj hkey)).1
    | succ i => exact congrArg (_ :: ·) (ih hkey)
  | group key items rest _ ih => cases i with
    | zero => exact (hsingle key rest (Option.some.inj hkey)).2 items
    | succ i => exact congrArg (_ :: ·) (ih hkey)

/-- What is at a place below a node depends on that node only. -/
theorem nodeAt_congr (h : (entries f)[i]? = (entries g)[j]?) (loc : Loc) :
    nodeAt f (i :: loc) = nodeAt g (j :: loc) := by
  cases loc with
  | nil => exact congrArg (Option.map Prod.fst) h
  | cons k loc =>
    unfold nodeAt
    rw [itemsAt_eq, itemsAt_eq, h]

theorem nodeAt_of_none (h : (entries f)[i]? = none) (loc : Loc) : nodeAt f (i :: loc) = none := by
  rw [nodeAt_congr (g := .nil) (j := 0) h loc]
  cases loc <;> rfl

theorem restored_below (up : Loc) (i j : ℕ) (loc : Loc) :
    restored (up ++ [i]) (up ++ j :: loc) = up ++ (if j < i then j else j + 1) :: loc := by
  induction up with
  | nil => rfl
  | cons k up ih =>
    have hcons : restored (k :: (up ++ [i])) (k :: (up ++ j :: loc)) =
        k :: restored (up ++ [i]) (up ++ j :: loc) := by
      cases up <;> simp [restored]
    rw [List.cons_append, List.cons_append, hcons, ih]
    rfl

theorem restored_other {other : Loc} (h : ∀ j loc, other ≠ up ++ j :: loc) :
    restored (up ++ [i]) other = other := by
  induction up generalizing other with
  | nil => cases other with
    | nil => rfl
    | cons j loc => exact absurd rfl (h j loc)
  | cons k up ih => cases other with
    | nil => cases up <;> rfl
    | cons j loc =>
      have hcons : restored (k :: (up ++ [i])) (j :: loc) =
          if j = k then j :: restored (up ++ [i]) loc else j :: loc := by
        cases up <;> rfl
      rw [List.cons_append, hcons]
      split_ifs with hsame
      · subst hsame
        exact congrArg (j :: ·) (ih fun j' loc' heq => h j' loc' (congrArg (j :: ·) heq))
      · rfl

variable {loc other : Loc} {node : Node}

/-- A place is below a level or not. -/
theorem below_or (up other : Loc) :
    (∃ j loc, other = up ++ j :: loc) ∨ ∀ j loc, other ≠ up ++ j :: loc := by
  by_cases h : ∃ j loc, other = up ++ j :: loc
  · exact .inl h
  · exact .inr fun j loc heq => h ⟨j, loc, heq⟩

/-- When a node is left out, the ones behind it at its level move up. -/
theorem nodeAt_dropNode (h : nodeAt f loc = some node) (other : Loc) :
    nodeAt (modifyAt dropNode f loc) other = nodeAt f (restored loc other) := by
  obtain ⟨up, i, g, rfl, hg, -⟩ := exists_level h
  rw [modifyAt_eq]
  obtain ⟨j, rest, rfl⟩ | hother := below_or up other
  · rw [nodeAt_changeLevel hg, restored_below, nodeAt_append, hg]
    refine nodeAt_congr ?_ rest
    rw [entries_dropNode, List.getElem?_eraseIdx]
    split_ifs <;> rfl
  · rw [nodeAt_changeLevel_other hother, restored_other hother]

theorem nodeAt_setKey (h : nodeAt f loc = some node) (key : Text) :
    nodeAt (modifyAt (setKey key) f loc) loc = some (node.withKey key) ∧
      ∀ other, other ≠ loc → nodeAt (modifyAt (setKey key) f loc) other = nodeAt f other := by
  obtain ⟨up, i, g, rfl, hg, hnode⟩ := exists_level h
  rw [modifyAt_eq]
  constructor
  · rw [nodeAt_changeLevel hg]
    obtain ⟨entry, hentry, rfl⟩ := Option.map_eq_some_iff.mp hnode
    unfold nodeAt levelNode
    rw [entries_setKey, List.getElem?_modify_eq, hentry]
    rfl
  · intro other hne
    obtain ⟨j, rest, rfl⟩ | hother := below_or up other
    · rw [nodeAt_changeLevel hg, nodeAt_append, hg]
      by_cases hsame : i = j
      · subst hsame
        cases rest with
        | nil => exact absurd rfl hne
        | cons k rest =>
          change ((modifyAt (setKey key) g [i]).itemsAt i).bind _ = (g.itemsAt i).bind _
          rw [itemsAt_eq, itemsAt_eq, entries_setKey, List.getElem?_modify_eq]
          cases (entries g)[i]? <;> rfl
      · refine nodeAt_congr ?_ rest
        rw [entries_setKey, List.getElem?_modify_ne _ _ hsame]
    · exact nodeAt_changeLevel_other hother

theorem nodeAt_setValue (h : nodeAt f loc = some node) {entry : Node × Option Filters}
    (hnew : entries new = [entry]) (hkey : node.key = entry.1.key) :
    (∀ below, nodeAt (modifyAt (setValue new) f loc) (loc ++ below) = nodeAt new (0 :: below)) ∧
      ∀ other, ¬ loc <+: other →
        nodeAt (modifyAt (setValue new) f loc) other = nodeAt f other := by
  obtain ⟨up, i, g, rfl, hg, hnode⟩ := exists_level h
  have hset := entries_setValue hnew ((congrArg (Option.map Node.key) hnode).trans
    (congrArg some hkey))
  obtain ⟨there, hthere, -⟩ := Option.map_eq_some_iff.mp hnode
  have hlt : i < (entries g).length := (List.getElem?_eq_some_iff.mp hthere).1
  rw [modifyAt_eq]
  constructor
  · intro below
    rw [List.append_assoc, List.singleton_append, nodeAt_changeLevel hg]
    refine nodeAt_congr ?_ below
    rw [hset, List.getElem?_set_self hlt, hnew]
    rfl
  · intro other hnot
    obtain ⟨j, rest, rfl⟩ | hother := below_or up other
    · rw [nodeAt_changeLevel hg, nodeAt_append, hg]
      refine nodeAt_congr ?_ rest
      have hne : i ≠ j := by
        rintro rfl
        exact hnot ⟨rest, by rw [List.append_assoc, List.singleton_append]⟩
      rw [hset, List.getElem?_set_ne hne]
    · exact nodeAt_changeLevel_other hother

/-- Nodes that are pushed on a level come behind those that are there. -/
theorem nodeAt_pushItems (new : Filters) (hne : up ≠ []) (h : levelAt f up = some g) :
    (∀ j below, nodeAt (modifyAt (pushItems new) f up) (up ++ (g.keys.length + j) :: below) =
      nodeAt new (j :: below)) ∧
    ∀ other, (∀ j below, other ≠ up ++ (g.keys.length + j) :: below) →
      nodeAt (modifyAt (pushItems new) f up) other = nodeAt f other := by
  have hlength : g.keys.length = (entries g).length := by rw [keys_eq, List.length_map]
  rw [modifyAt_pushItems hne h, hlength]
  constructor
  · intro j below
    rw [nodeAt_changeLevel h]
    refine nodeAt_congr ?_ below
    rw [entries_append, List.getElem?_append_right (Nat.le_add_right _ _),
      Nat.add_sub_cancel_left]
  · intro other hnot
    obtain ⟨j, rest, rfl⟩ | hother := below_or up other
    · rw [nodeAt_changeLevel h, nodeAt_append, h]
      refine nodeAt_congr ?_ rest
      have hlt : j < (entries g).length := by
        by_contra hge
        obtain ⟨k, rfl⟩ := Nat.exists_eq_add_of_le (Nat.le_of_not_lt hge)
        exact hnot k rest rfl
      rw [entries_append, List.getElem?_append_left hlt]
    · exact nodeAt_changeLevel_other hother

end Frames

section Size

/-- The number of the nodes of all levels. -/
def size : Filters → ℕ
  | .nil => 0
  | .leaf _ _ _ rest => size rest + 1
  | .group _ items rest => size items + size rest + 1

variable {f g items : Filters} {i : ℕ} {up : Loc}

theorem size_append (f g : Filters) : size (f.append g) = size f + size g := by
  induction f with
  | nil => exact (Nat.zero_add _).symm
  | leaf key op values rest ih =>
    simp only [Filters.append, size, ih]
    omega
  | group key items rest _ ih =>
    simp only [Filters.append, size, ih]
    omega

theorem size_setItems (h : f.itemsAt i = some items) (new : Filters) :
    size (setItems new f i) + size items = size f + size new := by
  induction f generalizing i with
  | nil => cases h
  | leaf key op values rest ih => cases i with
    | zero => cases h
    | succ i =>
      have hrest := ih h
      simp only [setItems, size]
      omega
  | group key items' rest _ ih => cases i with
    | zero =>
      obtain rfl := Option.some.inj h
      simp only [setItems, size]
      omega
    | succ i =>
      have hrest := ih h
      simp only [setItems, size]
      omega

theorem size_pushItems {new : Filters} (hne : up ≠ []) (h : levelAt f up = some g) :
    size (modifyAt (pushItems new) f up) = size f + size new := by
  rw [modifyAt_pushItems hne h]
  clear hne
  induction up generalizing f with
  | nil => exact size_append f new
  | cons i up ih =>
    obtain ⟨items, hitems, hg⟩ := Option.bind_eq_some_iff.mp h
    have hinner := ih hg
    have hset := size_setItems hitems (changeLevel (·.append new) items up)
    rw [changeLevel_cons hitems]
    omega

end Size

end Qvd.FilterNodes
