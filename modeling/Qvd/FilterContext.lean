import Qvd.FilterPaths

/-!
Looking a node up and changing it below a chain of groups. A context puts a level in its
place in the tree; what the operations do there is what they do on the level alone, since
neither the groups on the way nor the nodes before them change.
-/
namespace Qvd.FilterContext

open NumberedPath RestFilter FilterPaths

section Append

@[simp] theorem nil_append (f : Filters) : Filters.append .nil f = f := rfl

@[simp] theorem append_nil (f : Filters) : f.append .nil = f := by
  induction f with
  | nil => rfl
  | leaf key op values rest ih => simp [Filters.append, ih]
  | group key items rest _ ih => simp [Filters.append, ih]

theorem append_assoc (f g h : Filters) : (f.append g).append h = f.append (g.append h) := by
  induction f with
  | nil => rfl
  | leaf key op values rest ih => simp [Filters.append, ih]
  | group key items rest _ ih => simp [Filters.append, ih]

theorem keys_append (f g : Filters) : (f.append g).keys = f.keys ++ g.keys := by
  induction f with
  | nil => rfl
  | leaf key op values rest ih => simp [Filters.append, Filters.keys, ih]
  | group key items rest _ ih => simp [Filters.append, Filters.keys, ih]

theorem leafKeys_append (f g : Filters) : leafKeys (f.append g) = leafKeys f ++ leafKeys g := by
  induction f with
  | nil => rfl
  | leaf key op values rest ih => simp [Filters.append, leafKeys, ih]
  | group key items rest _ ih => simp [Filters.append, leafKeys, ih]

theorem wellFormed_append (f g : Filters) (hf : WellFormed f) (hg : WellFormed g) :
    WellFormed (f.append g) := by
  induction f with
  | nil => exact hg
  | leaf key op values rest ih => exact ⟨hf.1, ih hf.2⟩
  | group key items rest _ ih => exact ⟨hf.1, hf.2.1, ih hf.2.2⟩

/-- The counted occurrence of a name is found behind the other ones. -/
theorem occurrence_after (name : Text) (keys rest : List Text) :
    occurrence name (keys.count name + 1) (keys ++ name :: rest) = some keys.length := by
  induction keys with
  | nil => simp [occurrence]
  | cons key keys ih =>
    by_cases hkey : key = name
    · simp [occurrence, hkey, ih]
    · simp [occurrence, hkey, ih, List.count_cons_of_ne hkey]

theorem itemsAt_append (f : Filters) (key : Text) (items rest : Filters) :
    (f.append (.group key items rest)).itemsAt f.keys.length = some items := by
  induction f with
  | nil => rfl
  | leaf key' op values rest' ih => exact ih
  | group key' items' rest' _ ih => exact ih

theorem itemsAt_append_leaf (f : Filters) (key op : Text) (values : List Json) (rest : Filters) :
    (f.append (.leaf key op values rest)).itemsAt f.keys.length = none := by
  induction f with
  | nil => rfl
  | leaf key' op' values' rest' ih => exact ih
  | group key' items' rest' _ ih => exact ih

theorem comparisonAt_append (f g : Filters) (i : ℕ) (loc : Loc) :
    comparisonAt (f.append g) ((f.keys.length + i) :: loc) = comparisonAt g (i :: loc) := by
  induction f with
  | nil => simp [Filters.keys]
  | leaf key op values rest ih =>
    have hlen : (Filters.leaf key op values rest).keys.length + i =
        (rest.keys.length + i) + 1 := by
      simp only [Filters.keys, List.length_cons]
      omega
    rw [hlen, Filters.append, comparisonAt, ih]
  | group key items rest _ ih =>
    have hlen : (Filters.group key items rest).keys.length + i =
        (rest.keys.length + i) + 1 := by
      simp only [Filters.keys, List.length_cons]
      omega
    rw [hlen, Filters.append, comparisonAt, ih]

theorem modifyAt_append (edit : Filters → Filters) (f g : Filters) (i : ℕ) (loc : Loc) :
    modifyAt edit (f.append g) ((f.keys.length + i) :: loc) =
      f.append (modifyAt edit g (i :: loc)) := by
  induction f with
  | nil => simp [Filters.keys]
  | leaf key op values rest ih =>
    have hlen : (Filters.leaf key op values rest).keys.length + i =
        (rest.keys.length + i) + 1 := by
      simp only [Filters.keys, List.length_cons]
      omega
    rw [hlen, Filters.append, modifyAt, ih, Filters.append]
  | group key items rest _ ih =>
    have hlen : (Filters.group key items rest).keys.length + i =
        (rest.keys.length + i) + 1 := by
      simp only [Filters.keys, List.length_cons]
      omega
    rw [hlen, Filters.append, modifyAt, ih, Filters.append]

end Append

/-- A place for a level: the nodes that lead to it, and where they are found. -/
structure Context (put : Filters → Filters) (base : List Text) (loc : Loc) : Prop where
  node : ∀ level nodes, nodes ≠ [] → filterNode (base ++ nodes) (put level) =
    (filterNode nodes level).map (Option.map (loc ++ ·))
  self : ∀ level, filterNode base (put level) = .ok (some loc)
  comparison : ∀ level i inner,
    comparisonAt (put level) (loc ++ i :: inner) = comparisonAt level (i :: inner)
  noComparison : ∀ level, comparisonAt (put level) loc = .error .notAHash
  modify : ∀ edit level i inner,
    modifyAt edit (put level) (loc ++ i :: inner) = put (modifyAt edit level (i :: inner))
  push : ∀ new level, modifyAt (pushItems new) (put level) loc = put (level.append new)

theorem context_root : Context (fun level => .group rootOp level .nil) [rootOp] [0] where
  node := by
    intro level nodes hnodes
    have hfound : occurrence (nameAndCounter rootOp).1 (nameAndCounter rootOp).2
        (Filters.group rootOp level .nil).keys = some 0 := by
      simp only [Filters.keys]
      decide
    simp only [List.singleton_append, filterNode, hfound, if_neg hnodes, Filters.itemsAt]
  self := by
    intro level
    have hfound : occurrence (nameAndCounter rootOp).1 (nameAndCounter rootOp).2
        (Filters.group rootOp level .nil).keys = some 0 := by
      simp only [Filters.keys]
      decide
    simp [filterNode, hfound]
  comparison := fun _ _ _ => by simp [comparisonAt]
  noComparison := fun _ => rfl
  modify := fun _ _ _ _ => by simp [modifyAt]
  push := fun _ _ => rfl

/-- A group at the end of a level's first nodes is a place for a level as well. -/
theorem context_group {put : Filters → Filters} {base : List Text} {loc : Loc}
    (h : Context put base loc) (before after : Filters) (key : Text) (hkey : Plain key) :
    Context (fun level => put (before.append (.group key level after)))
      (base ++ [numbered key (before.keys.count key + 1)]) (loc ++ [before.keys.length]) := by
  have hread := nameAndCounter_numbered key (before.keys.count key + 1) hkey.2
  have hfound : ∀ level, occurrence key (before.keys.count key + 1)
      (before.append (.group key level after)).keys = some before.keys.length := by
    intro level
    rw [keys_append, Filters.keys, occurrence_after]
  have hitems : ∀ level, (before.append (.group key level after)).itemsAt before.keys.length =
      some level := fun level => itemsAt_append before key level after
  refine ⟨?_, ?_, ?_, ?_, ?_, ?_⟩
  · intro level nodes hnodes
    rw [List.append_assoc, h.node _ _ (by simp), List.singleton_append, filterNode]
    simp only [hread, hfound, if_neg hnodes, hitems]
    cases filterNode nodes level with
    | error e => rfl
    | ok found => cases found <;> simp [Except.map]
  · intro level
    rw [h.node _ _ (by simp), filterNode]
    simp only [hread, hfound, if_true, Except.map, Option.map]
  · intro level i inner
    have happ := comparisonAt_append before (.group key level after) 0 (i :: inner)
    rw [List.append_assoc, List.singleton_append, h.comparison]
    simpa [comparisonAt] using happ
  · intro level
    have happ := comparisonAt_append before (.group key level after) 0 []
    rw [h.comparison]
    simpa [comparisonAt] using happ
  · intro edit level i inner
    have happ := modifyAt_append edit before (.group key level after) 0 (i :: inner)
    rw [List.append_assoc, List.singleton_append, h.modify]
    simp only [Nat.add_zero] at happ
    rw [happ, modifyAt]
  · intro new level
    have happ := modifyAt_append (pushItems new) before (.group key level after) 0 []
    rw [h.modify]
    simp only [Nat.add_zero] at happ
    rw [happ]
    simp [modifyAt, pushItems]

end Qvd.FilterContext
