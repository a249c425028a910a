import Qvd.FilterContext
import Qvd.RequestBuild

/-!
Why a key with a separator or a line break in it stays as it is. A look-up goes by the
components of a path, and no component is such a key; so a leaf with one is never the node
that is found, and no operation on another node, nor the adding of nodes, changes it.
-/
namespace Qvd.RawKeys

open NumberedPath RestFilter RestModel RequestBuild FilterPaths FilterContext Checks

section Found

/-- The nodes of a level from the one with a name on. -/
inductive Headed (name : Text) : Filters → Prop
  | leaf (op : Text) (values : List Json) (rest : Filters) : Headed name (.leaf name op values rest)
  | group (items rest : Filters) : Headed name (.group name items rest)

theorem occurrence_split (f : Filters) (name : Text) (counter i : ℕ)
    (h : occurrence name counter f.keys = some i) :
    ∃ before g : Filters, f = before.append g ∧ before.keys.length = i ∧ Headed name g := by
  induction f generalizing counter i with
  | nil => cases h
  | leaf key op values rest ih =>
    have hrest : ∀ counter', (occurrence name counter' rest.keys).map (· + 1) = some i →
        ∃ before g : Filters, Filters.leaf key op values rest = before.append g ∧
          before.keys.length = i ∧ Headed name g := by
      intro counter' hmap
      obtain ⟨j, hj, hi⟩ := Option.map_eq_some_iff.mp hmap
      obtain ⟨before, g, hsplit, hlen, hg⟩ := ih counter' j hj
      refine ⟨.leaf key op values before, g, by rw [hsplit]; rfl, ?_, hg⟩
      rw [Filters.keys, List.length_cons, hlen, hi]
    rw [Filters.keys, occurrence] at h
    split at h
    · next hkey =>
      split at h
      · exact ⟨.nil, _, rfl, Option.some.inj h, hkey ▸ .leaf op values rest⟩
      · exact hrest _ h
    · exact hrest _ h
  | group key items rest _ ih =>
    have hrest : ∀ counter', (occurrence name counter' rest.keys).map (· + 1) = some i →
        ∃ before g : Filters, Filters.group key items rest = before.append g ∧
          before.keys.length = i ∧ Headed name g := by
      intro counter' hmap
      obtain ⟨j, hj, hi⟩ := Option.map_eq_some_iff.mp hmap
      obtain ⟨before, g, hsplit, hlen, hg⟩ := ih counter' j hj
      refine ⟨.group key items before, g, by rw [hsplit]; rfl, ?_, hg⟩
      rw [Filters.keys, List.length_cons, hlen, hi]
    rw [Filters.keys, occurrence] at h
    split at h
    · next hkey =>
      split at h
      · exact ⟨.nil, _, rfl, Option.some.inj h, hkey ▸ .group items rest⟩
      · exact hrest _ h
    · exact hrest _ h

/-- A found node: the tree around it, and that a change there changes nothing else. -/
structure Found (names : List Text) (f : Filters) (loc : Loc) (put : Filters → Filters)
    (g : Filters) : Prop where
  here : f = put g
  index : ∃ i inner, loc = i :: inner
  modify : ∀ edit, modifyAt edit f loc = put (edit g)
  comparison : comparisonAt f loc = comparisonAt g [0]
  around : ∃ first last, ∀ g', leafKeys (put g') = first ++ leafKeys g' ++ last
  headed : ∃ node ∈ names, Headed (nameAndCounter node).1 g

theorem filterNode_found (names : List Text) (f : Filters) (loc : Loc)
    (h : filterNode names f = .ok (some loc)) : ∃ put g, Found names f loc put g := by
  induction names generalizing f loc with
  | nil => cases h
  | cons node nodes ih =>
    rw [filterNode] at h
    split at h
    · obtain ⟨put, g, hfound⟩ := ih f loc h
      obtain ⟨other, hother, hheaded⟩ := hfound.headed
      exact ⟨put, g, { hfound with headed := ⟨other, List.mem_cons_of_mem node hother, hheaded⟩ }⟩
    · next i hoccurrence =>
      obtain ⟨before, g, hsplit, hlen, hg⟩ := occurrence_split f _ _ i hoccurrence
      subst hsplit hlen
      split at h
      · rw [Except.ok.injEq, Option.some.injEq] at h
        subst h
        refine ⟨before.append, g, rfl, ⟨_, _, rfl⟩, ?_, ?_, ?_, node, List.mem_cons_self, hg⟩
        · intro edit
          have happ := modifyAt_append edit before g 0 []
          rw [Nat.add_zero] at happ
          rw [happ]
          cases g <;> rfl
        · exact comparisonAt_append before g 0 []
        · exact ⟨leafKeys before, [], fun g' => by simp [leafKeys_append]⟩
      · cases hg with
        | leaf op values rest =>
          simp [itemsAt_append_leaf] at h
        | group items rest =>
          simp only [itemsAt_append] at h
          cases hinner : filterNode nodes items with
          | error e => simp [hinner, Except.map] at h
          | ok found =>
            cases found with
            | none => simp [hinner, Except.map] at h
            | some inner =>
              simp only [hinner, Except.map, Option.map, Except.ok.injEq,
                Option.some.injEq] at h
              subst h
              obtain ⟨put, g, hfound⟩ := ih items inner hinner
              obtain ⟨other, hother, hheaded⟩ := hfound.headed
              obtain ⟨j, deeper, hindex⟩ := hfound.index
              refine ⟨fun g' => before.append (.group (nameAndCounter node).1 (put g') rest), g,
                ?_, ⟨_, _, rfl⟩, ?_, ?_, ?_, other, List.mem_cons_of_mem node hother, hheaded⟩
              · rw [← hfound.here]
              · intro edit
                have happ := modifyAt_append edit before
                  (.group (nameAndCounter node).1 items rest) 0 inner
                rw [Nat.add_zero] at happ
                rw [happ, ← hfound.modify, hindex, modifyAt]
              · have happ := comparisonAt_append before
                  (.group (nameAndCounter node).1 items rest) 0 inner
                rw [Nat.add_zero] at happ
                rw [happ, ← hfound.comparison, hindex, comparisonAt]
              · obtain ⟨first, last, haround⟩ := hfound.around
                refine ⟨leafKeys before ++ first, last ++ leafKeys rest, ?_⟩
                intro g'
                simp [leafKeys_append, leafKeys, haround]

end Found

section Kept

variable {raw : Text}

/-- The components of a path are plain. -/
theorem plain_component (path : Text) : ∀ node ∈ splitPath path,
    Plain (nameAndCounter node).1 := by
  intro node hnode
  exact ⟨hasSep_name node (hasSep_of_mem_splitPath path node hnode), newline_not_mem_name node⟩

/-- What a change of the found node keeps of its own keys, it keeps of the tree's. -/
theorem kept_of_found {names : List Text} {f g : Filters} {loc : Loc}
    {put : Filters → Filters} (hfound : Found names f loc put g) (edit : Filters → Filters)
    (hedit : raw ∈ leafKeys g → raw ∈ leafKeys (edit g)) (hraw : raw ∈ leafKeys f) :
    raw ∈ leafKeys (modifyAt edit f loc) := by
  obtain ⟨first, last, haround⟩ := hfound.around
  rw [hfound.here, haround, List.mem_append, List.mem_append] at hraw
  rw [hfound.modify, haround, List.mem_append, List.mem_append]
  rcases hraw with (hfirst | hg) | hlast
  · exact Or.inl (Or.inl hfirst)
  · exact Or.inl (Or.inr (hedit hg))
  · exact Or.inr hlast

theorem setFilterKey_kept (hnot : ¬ Plain raw) (f f' : Filters) (path key : Text)
    (h : setFilterKey f path key = .ok f') (hraw : raw ∈ leafKeys f) : raw ∈ leafKeys f' := by
  rw [setFilterKey, bind_ok] at h
  obtain ⟨found, hlookup, h⟩ := h
  cases found with
  | none => exact pure_ok.mp h ▸ hraw
  | some loc =>
    rw [← pure_ok.mp h]
    obtain ⟨put, g, hfound⟩ := filterNode_found _ f loc hlookup
    obtain ⟨node, hnode, hheaded⟩ := hfound.headed
    apply kept_of_found hfound _ _ hraw
    intro hg
    generalize hname : (nameAndCounter node).1 = name at hheaded
    have hne : raw ≠ name := by
      intro heq
      exact hnot (heq ▸ hname ▸ plain_component (rootPath path) node hnode)
    cases hheaded with
    | leaf op values rest =>
      exact List.mem_cons_of_mem key ((List.mem_cons.mp hg).resolve_left hne)
    | group items rest => exact hg

/-- A value is only set where one was read before, so the node has a comparison. -/
theorem setFilterValue_kept (hnot : ¬ Plain raw) (f f' : Filters) (path : Text)
    (values : Option (List Json)) (value : Json) (hvalue : filterValue f path = .ok values)
    (h : setFilterValue f path value = .ok f') (hraw : raw ∈ leafKeys f) :
    raw ∈ leafKeys f' := by
  simp only [setFilterValue, bind_ok] at h
  obtain ⟨new, _, found, hlookup, h⟩ := h
  cases found with
  | none => exact pure_ok.mp h ▸ hraw
  | some loc =>
    rw [← pure_ok.mp h]
    simp only [filterValue, hlookup, bind_ok, Except.ok.injEq, exists_eq_left', pure_ok] at hvalue
    obtain ⟨comp, hcomp, _⟩ := hvalue
    obtain ⟨put, g, hfound⟩ := filterNode_found _ f loc hlookup
    obtain ⟨node, hnode, hheaded⟩ := hfound.headed
    apply kept_of_found hfound _ _ hraw
    intro hg
    rw [hfound.comparison] at hcomp
    generalize hname : (nameAndCounter node).1 = name at hheaded
    have hne : raw ≠ name := by
      intro heq
      exact hnot (heq ▸ hname ▸ plain_component (rootPath path) node hnode)
    cases hheaded with
    | leaf op values rest =>
      have hrest := (List.mem_cons.mp hg).resolve_left hne
      cases new with
      | nil => exact List.mem_cons_of_mem name hrest
      | leaf _ op' values' _ => exact List.mem_cons_of_mem name hrest
      | group _ items _ => exact List.mem_append_right _ hrest
    | group items rest => cases hcomp

theorem pushOn_kept (f f' : Filters) (target : List Text) (new : Filters)
    (h : pushOn f target new = .ok f') (hraw : raw ∈ leafKeys f) : raw ∈ leafKeys f' := by
  rw [pushOn, bind_ok] at h
  obtain ⟨found, hlookup, h⟩ := h
  cases found with
  | none => cases h
  | some loc =>
    cases hcomp : comparisonAt f loc with
    | ok comp =>
      simp only [hcomp] at h
      cases h
    | error e =>
      simp only [hcomp] at h
      rw [← pure_ok.mp h]
      obtain ⟨put, g, hfound⟩ := filterNode_found target f loc hlookup
      apply kept_of_found hfound _ _ hraw
      intro hg
      cases g with
      | nil => exact hg
      | leaf key op values rest => exact hg
      | group key items rest =>
        rcases List.mem_append.mp hg with hitems | hrest
        · apply List.mem_append_left
          rw [leafKeys_append]
          exact List.mem_append_left _ hitems
        · exact List.mem_append_right _ hrest

/-- By induction on the names of the levels that have to be there first. -/
theorem addBelow_kept (names : List Text) (f f' new : Filters)
    (h : addBelow f names new = .ok f') (hraw : raw ∈ leafKeys f) : raw ∈ leafKeys f' := by
  induction hlen : names.length using Nat.strongRecOn generalizing names f f' new with
  | ind n ih =>
    rw [addBelow, bind_ok] at h
    obtain ⟨found, _, h⟩ := h
    split at h
    · exact pushOn_kept f f' _ new h hraw
    · split at h
      · cases h
      · next hne =>
        have hpos : 0 < names.length := List.length_pos_of_ne_nil hne
        split at h
        · simp only [bind_ok] at h
          obtain ⟨level, _, f₁, hadd, hpush⟩ := h
          exact pushOn_kept f₁ f' _ new hpush (ih 0 (by omega) [] f f₁ level hadd hraw rfl)
        · next name outer hdrop =>
          simp only [bind_ok] at h
          obtain ⟨level, _, f₁, hadd, hpush⟩ := h
          have hle := (List.dropWhile_sublist (fun name : Text => name.isEmpty)
            (l := names)).length_le
          rw [hdrop, List.length_cons] at hle
          exact pushOn_kept f₁ f' _ new hpush
            (ih outer.length (by omega) outer f f₁ level hadd hraw rfl)

theorem addFilter_kept (f f' : Filters) (path : Text) (value : Json) (key : Option Text)
    (h : addFilter f path value key = .ok f') (hraw : raw ∈ leafKeys f) :
    raw ∈ leafKeys f' := by
  rw [addFilter, bind_ok] at h
  obtain ⟨new, _, hadd⟩ := h
  exact addBelow_kept _ f f' new hadd hraw

variable (model : Model)

theorem translateFilter_kept (hnot : ¬ Plain raw) (state state' : Filters × ℕ) (path : Text)
    (hraw : raw ∈ leafKeys state.1) (h : translateFilter model state path = .ok state') :
    raw ∈ leafKeys state'.1 := by
  simp only [translateFilter, bind_ok] at h
  obtain ⟨values, hvalue, h⟩ := h
  split at h
  · simp only [bind_ok, pure_ok] at h
    obtain ⟨op, _, f, hset, f', hkey, f'', hadd, hstate⟩ := h
    rw [← hstate]
    exact addFilter_kept f' f'' _ _ _ hadd (setFilterKey_kept hnot f f' path _ hkey
      (setFilterValue_kept hnot state.1 f path values _ hvalue hset hraw))
  · simp only [bind_ok, pure_ok] at h
    obtain ⟨column, _, op, _, f, hset, f', hkey, hstate⟩ := h
    rw [← hstate]
    exact setFilterKey_kept hnot f f' path _ hkey
      (setFilterValue_kept hnot state.1 f path values _ hvalue hset hraw)

/-- What goes to the database still has every key of the request that is not plain. -/
theorem getDbiFormatFilters_kept (hnot : ¬ Plain raw) (f s : Filters)
    (h : getDbiFormatFilters model f = .ok s) (hraw : raw ∈ leafKeys f) :
    raw ∈ leafKeys s := by
  simp only [getDbiFormatFilters, bind_ok, pure_ok] at h
  obtain ⟨paths, _, state, hfold, hstate⟩ := h
  rw [← hstate]
  exact foldlM_invariant (fun state : Filters × ℕ => raw ∈ leafKeys state.1)
    (fun state path state' hkept => translateFilter_kept model hnot state state' path hkept)
    paths (f, 0) state hraw hfold

end Kept

end Qvd.RawKeys
