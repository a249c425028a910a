import Qvd.FilterContext
import Qvd.RequestedFilters

/-!
The rewriting of a filter tree for the database, leaf by leaf. The leaves of a level are
translated from the last to the first, so that the keys a path counts are still those of
the request; the condition on a property goes to the end of the level, behind all nodes
that are still to be looked up; and no column has the name of a group.
-/
namespace Qvd.FilterRewrite

open NumberedPath RestFilter RestModel RequestBuild FilterPaths FilterContext
  RequestedFilters Checks

section Columns

/-- Is a text fit for the key of a leaf that is not looked up again? -/
def Column (text : Text) : Prop :=
  Plain text ∧ text ∉ logicalOperators

instance (text : Text) : Decidable (Column text) :=
  inferInstanceAs (Decidable (_ ∧ _))

theorem column_of_tables : ∀ entry ∈ RestTables.filtersToDbixFormat, ∀ pair ∈ entry.2,
    Column pair.2.toList := by
  decide +kernel

theorem column_of_mapped {model : Model} {key column : Text}
    (h : model.mapToDbixFormat key = some column) : Column column := by
  obtain ⟨pair, hfind, hcolumn⟩ := Option.map_eq_some_iff.mp h
  cases hlookup : RestTables.filtersToDbixFormat.lookup model.qvdObject with
  | none =>
    rw [hlookup] at hfind
    cases hfind
  | some pairs =>
    rw [hlookup] at hfind
    obtain ⟨first, last, hsplit, _⟩ := List.lookup_eq_some_iff.mp hlookup
    have hentry : (model.qvdObject, pairs) ∈ RestTables.filtersToDbixFormat := by
      simp [hsplit]
    exact hcolumn ▸ column_of_tables _ hentry pair (List.mem_of_find?_eq_some hfind)

theorem not_mem_digits (n : ℕ) (c : Char) (hc : c.isDigit = false) : c ∉ Nat.toDigits 10 n := by
  intro hmem
  rw [Nat.isDigit_of_mem_toDigits (by decide) (by decide) hmem] at hc
  cases hc

/-- A column of a join has letters, digits, underscores and dots. -/
theorem column_of_join (first last : Text) (n : ℕ) (hfirst : first.head? = some 'p')
    (hcolon : ':' ∉ first ++ last) (hnewline : '\n' ∉ first ++ last) :
    Column (first ++ propertySuffix n ++ last) := by
  have hsuffix : ∀ c : Char, c.isDigit = false → c ≠ '_' → c ∉ propertySuffix n := by
    intro c hdigit hunderscore
    unfold propertySuffix
    split
    · simp [hunderscore, not_mem_digits n c hdigit]
    · exact List.not_mem_nil
  rw [List.mem_append, not_or] at hcolon hnewline
  refine ⟨⟨?_, ?_⟩, ?_⟩
  · apply hasSep_of_not_mem
    simp [hcolon.1, hcolon.2, hsuffix ':' (by decide) (by decide)]
  · simp [hnewline.1, hnewline.2, hsuffix '\n' (by decide) (by decide)]
  · intro hlogical
    have hdash : ∀ op ∈ logicalOperators, op.head? = some '-' := by decide +kernel
    have hhead := hdash _ hlogical
    rw [List.append_assoc, List.head?_append, hfirst] at hhead
    cases hhead

theorem column_valueColumn (n : ℕ) : Column (valueColumn n) :=
  column_of_join "properties".toList ".value".toList n (by decide) (by decide) (by decide)

theorem column_keyColumn (n : ℕ) : Column (keyColumn n) :=
  column_of_join "properties_list".toList ".key".toList n (by decide) (by decide) (by decide)

end Columns

section Operations

variable {put : Filters → Filters} {base : List Text} {loc : Loc}

/-- The path of the next leaf with a key behind some nodes of a level. -/
def leafPath (base : List Text) (before : Filters) (key : Text) : Text :=
  joinPath (base ++ [numbered key (before.keys.count key + 1)])

theorem clean_leafPath (hbase : ∀ node ∈ base, CleanNode node) {key : Text} (hkey : Plain key)
    (n : ℕ) : ∀ node ∈ base ++ [numbered key n], CleanNode node := by
  intro node hnode
  rcases List.mem_append.mp hnode with hnode | hnode
  · exact hbase node hnode
  · exact List.mem_singleton.mp hnode ▸ cleanNode_numbered hkey n

theorem nameFromPath_leafPath (hbase : ∀ node ∈ base, CleanNode node) (before : Filters)
    {key : Text} (hkey : Plain key) : nameFromPath (leafPath base before key) = key :=
  nameFromPath_joinPath base key _ hbase hkey

theorem nameFromPath_rootPath (hbase : ∀ node ∈ base, CleanNode node) (before : Filters)
    {key : Text} (hkey : Plain key) :
    nameFromPath (rootPath (leafPath base before key)) = key := by
  rw [leafPath, rootPath, ← joinPath_cons rootOp _ (by simp), ← List.cons_append]
  apply nameFromPath_joinPath (rootOp :: base) key _ _ hkey
  intro node hnode
  rcases List.mem_cons.mp hnode with hroot | hnode
  · exact hroot ▸ cleanNode_rootOp
  · exact hbase node hnode

variable (h : Context put (rootOp :: base) loc) (hbase : ∀ node ∈ base, CleanNode node)
  (before after : Filters) {key : Text} (hkey : Plain key)

include h in
theorem comparisonAt_leaf (op : Text) (values : List Json) :
    comparisonAt (put (before.append (.leaf key op values after)))
      (loc ++ [before.keys.length]) = .ok (op, values) := by
  have happ := comparisonAt_append before (.leaf key op values after) 0 []
  rw [h.comparison]
  simpa [comparisonAt] using happ

include h in
theorem modifyAt_leaf (edit : Filters → Filters) (op : Text) (values : List Json) :
    modifyAt edit (put (before.append (.leaf key op values after)))
      (loc ++ [before.keys.length]) =
      put (before.append (edit (.leaf key op values after))) := by
  have happ := modifyAt_append edit before (.leaf key op values after) 0 []
  simp only [Nat.add_zero] at happ
  rw [h.modify, happ, modifyAt]

include h hbase hkey

theorem lookup_leaf (op : Text) (values : List Json) :
    lookup (put (before.append (.leaf key op values after))) (leafPath base before key) =
      .ok (some (loc ++ [before.keys.length])) := by
  rw [lookup, leafPath, splitPath_rootPath _ (by simp) (clean_leafPath hbase hkey _),
    ← List.cons_append, h.node _ _ (by simp), filterNode]
  simp only [nameAndCounter_numbered key _ hkey.2, keys_append, Filters.keys,
    occurrence_after, if_true, Except.map, Option.map]

theorem filterValue_leaf (op : Text) (values : List Json) :
    filterValue (put (before.append (.leaf key op values after)))
      (leafPath base before key) = .ok (some values) := by
  simp only [filterValue, lookup_leaf h hbase before after hkey, bind, Except.bind,
    comparisonAt_leaf h before after, pure, Except.pure]

theorem filterOperator_leaf (op : Text) (values : List Json) :
    filterOperator (put (before.append (.leaf key op values after)))
      (leafPath base before key) = .ok (some op) := by
  simp only [filterOperator, lookup_leaf h hbase before after hkey, bind, Except.bind,
    comparisonAt_leaf h before after, pure, Except.pure]

theorem setFilterValue_leaf (hlogical : key ∉ logicalOperators) (op op' : Text)
    (values values' : List Json) (f : Filters)
    (hset : setFilterValue (put (before.append (.leaf key op values after)))
      (leafPath base before key) (dbixValue (some op') (some values')) = .ok f) :
    f = put (before.append (.leaf key op' values' after)) := by
  rw [setFilterValue, nameFromPath_rootPath hbase before hkey, bind_ok] at hset
  obtain ⟨value, hvalue, hset⟩ := hset
  have hleaf : value = .leaf key op' values' .nil := by
    rw [normalizePair] at hvalue
    by_cases hop : op' ∈ comparisonOperators
    · simp [normalizeItems, Json.key?, hlogical, dbixValue, comparison, hop, operand, bind,
        Except.bind, pure, Except.pure] at hvalue
      exact hvalue.symm
    · simp [normalizeItems, Json.key?, hlogical, dbixValue, comparison, hop, bind,
        Except.bind] at hvalue
  simp only [lookup_leaf h hbase before after hkey, bind, Except.bind, pure, Except.pure,
    Except.ok.injEq] at hset
  rw [← hset, modifyAt_leaf h before after, hleaf]
  rfl

theorem setFilterKey_leaf (op column : Text) (values : List Json) :
    setFilterKey (put (before.append (.leaf key op values after))) (leafPath base before key)
      column = .ok (put (before.append (.leaf column op values after))) := by
  simp only [setFilterKey, lookup_leaf h hbase before after hkey, bind, Except.bind, pure,
    Except.pure, modifyAt_leaf h before after]
  rfl

omit hkey in
/-- A filter that is added below a path goes to the end of the level there. -/
theorem addBelow_level (level new : Filters) :
    addBelow (put level) base.reverse new = .ok (put (level.append new)) := by
  have htarget : splitPath (joinPath (rootOp :: base)) = rootOp :: base := by
    apply splitPath_joinPath _ (List.cons_ne_nil rootOp base)
    intro node hnode
    rcases List.mem_cons.mp hnode with hroot | hnode
    · exact hroot ▸ cleanNode_rootOp
    · exact hbase node hnode
  have hpush : pushOn (put level) (rootOp :: base) new = .ok (put (level.append new)) := by
    simp only [pushOn, h.self, bind, Except.bind, h.noComparison, h.push, pure, Except.pure]
  rw [addBelow]
  simp only [List.reverse_reverse, htarget, h.self, bind, Except.bind, hpush]

omit hkey in
theorem addFilter_level (level : Filters) (path column : Text) (value : Json)
    (new : Filters) (hpath : splitPath path = base)
    (hnew : normalizePair column value = .ok new) :
    addFilter (put level) path value (some column) = .ok (put (level.append new)) := by
  rw [addFilter, hpath]
  simp only [Option.toList, List.reverse_append, List.reverse_singleton, List.singleton_append,
    List.headD_cons, List.tail_cons, hnew, bind, Except.bind]
  exact addBelow_level h hbase level new

end Operations

section Step

theorem conditions_append (a b : List (ℕ × Text)) :
    conditions (a ++ b) = (conditions a).append (conditions b) := by
  induction a with
  | nil => rfl
  | cons cond rest ih => simp [conditions, Filters.append, ih]

/-- The value that a property's condition is added with. -/
theorem normalizePair_condition (n : ℕ) (key : Text) :
    normalizePair (keyColumn n) (.hash [("=".toList, .scalar key)]) =
      .ok (conditions [(n, key)]) := by
  have hop : "=".toList ∈ comparisonOperators := by decide
  simp [normalizePair, normalizeItems, Json.key?, (column_keyColumn n).2, comparison,
    comparisonOperators, operand, conditions, defaultComparisonOp, bind, Except.bind, pure,
    Except.pure]

variable {model : Model} {put : Filters → Filters} {base : List Text} {loc : Loc}

/-- What the rewriting does with one leaf. -/
theorem translateFilter_leaf (h : Context put (rootOp :: base) loc)
    (hbase : ∀ node ∈ base, CleanNode node) (before after : Filters) {key : Text}
    (hkey : Plain key) (hlogical : key ∉ logicalOperators) (op : Text) (values : List Json)
    (found : ℕ) (state : Filters × ℕ)
    (hstep : translateFilter model (put (before.append (.leaf key op values after)), found)
      (leafPath base before key) = .ok state) :
    ∃ join column op' values',
      LeafTranslated model key [(op, values)] column op' values' join ∧ Column column ∧
      state.1 = put ((before.append (.leaf column op' values' after)).append
        (conditions (join.toList.map (·, key)))) := by
  simp only [translateFilter, nameFromPath_leafPath hbase before hkey,
    filterValue_leaf h hbase before after hkey,
    filterOperator_leaf h hbase before after hkey] at hstep
  by_cases hproperty : model.hasProperty key = true
  · simp only [bind_ok, if_pos hproperty, Except.ok.injEq, exists_eq_left', pure_ok,
      Option.map] at hstep
    obtain ⟨f, hvalue, f', hkey', f'', hadd, hstate⟩ := hstep
    have hf := setFilterValue_leaf h hbase before after hkey hlogical _ _ _ _ f hvalue
    rw [hf, setFilterKey_leaf h hbase before after hkey, Except.ok.injEq] at hkey'
    rw [leafPath, basedirFromPath_joinPath base _ (clean_leafPath hbase hkey _), ← hkey',
      addFilter_level h hbase _ (joinPath base) _ _ _ ?_ (normalizePair_condition _ key),
      Except.ok.injEq] at hadd
    · refine ⟨some (found + 1), valueColumn (found + 1), Model.normalizeOperator op, values,
        ?_, column_valueColumn _, ?_⟩
      · simp [LeafTranslated, databaseValues, hproperty]
      · rw [← hstate, ← hadd]
        rfl
    · cases hnodes : base with
      | nil => rfl
      | cons node rest =>
        rw [← hnodes]
        exact splitPath_joinPath base (by simp [hnodes]) hbase
  · simp only [bind_ok, if_neg hproperty, Except.ok.injEq, exists_eq_left', pure_ok,
      Option.map] at hstep
    obtain ⟨column, hcolumn, f, hvalue, f', hkey', hstate⟩ := hstep
    have hmapped : model.mapToDbixFormat key = some column := by
      cases hmap : model.mapToDbixFormat key with
      | none => simp [mapped, hmap] at hcolumn
      | some column' => simpa [mapped, hmap] using hcolumn
    have hf := setFilterValue_leaf h hbase before after hkey hlogical _ _ _ _ f hvalue
    rw [hf, setFilterKey_leaf h hbase before after hkey, Except.ok.injEq] at hkey'
    refine ⟨none, column, Model.normalizeOperator op,
      values.map (model.normalizeValue key), ?_, column_of_mapped hmapped, ?_⟩
    · simp [LeafTranslated, databaseValues, hproperty, hmapped]
    · rw [← hstate, ← hkey']
      simp [conditions]

end Step

section Passes

variable (model : Model)

/-- A level whose leaves are translated and whose groups are as they were. -/
def LeavesTranslated : Filters → Filters → List (ℕ × Text) → Prop
  | .nil, .nil, conds => conds = []
  | .leaf key op values rest, .leaf column op' values' out, conds =>
    ∃ join conds', LeafTranslated model key [(op, values)] column op' values' join ∧
      Column column ∧ conds = conds' ++ join.toList.map (·, key) ∧
      LeavesTranslated rest out conds'
  | .group key items rest, .group key' items' out, conds =>
    key' = key ∧ items' = items ∧ LeavesTranslated rest out conds
  | _, _, _ => False

/-- The state that a walk along some paths ends with. -/
def Walk (paths : List Text) (start : Filters × ℕ) (state : Filters × ℕ) : Prop :=
  paths.foldlM (translateFilter model) start = .ok state

variable {model}

theorem walk_append {first second : List Text} {start state : Filters × ℕ}
    (h : Walk model (first ++ second) start state) :
    ∃ mid, Walk model first start mid ∧ Walk model second mid state := by
  rwa [Walk, List.foldlM_append, bind_ok] at h

theorem walk_single {path : Text} {start state : Filters × ℕ}
    (h : Walk model [path] start state) : translateFilter model start path = .ok state := by
  rw [Walk, List.foldlM_cons, bind_ok] at h
  obtain ⟨mid, hstep, hnil⟩ := h
  rw [List.foldlM_nil, pure_ok] at hnil
  exact hnil ▸ hstep

theorem walk_nil {start state : Filters × ℕ} (h : Walk model [] start state) :
    start = state := by
  rwa [Walk, List.foldlM_nil, pure_ok] at h

/-- By induction from the first leaf on: the later ones are done when it comes, and those
before it still have their keys. -/
theorem leaves_pass {put : Filters → Filters} {base : List Text} {loc : Loc}
    (h : Context put (rootOp :: base) loc) (hbase : ∀ node ∈ base, CleanNode node)
    (f : Filters) (hf : WellFormed f) (hplain : ∀ key ∈ leafKeys f, Plain key)
    (seen : List Text) (before tail : Filters)
    (hseen : ∀ key, seen.count key = before.keys.count key) (found : ℕ)
    (state : Filters × ℕ)
    (hwalk : Walk model ((leafNodes f seen).reverse.map fun node => joinPath (base ++ [node]))
      (put (before.append (f.append tail)), found) state) :
    ∃ out conds, LeavesTranslated model f out conds ∧
      state.1 = put (before.append ((out.append tail).append (conditions conds))) := by
  induction f generalizing seen before tail state with
  | nil =>
    have hstate := walk_nil hwalk
    exact ⟨.nil, [], rfl, by simp [← hstate, conditions]⟩
  | leaf key op values rest ih =>
    have hkeys : ∀ other, (key :: seen).count other =
        (before.append (.leaf key op values .nil)).keys.count other := by
      intro other
      simp [keys_append, Filters.keys, List.count_cons, hseen other]
    simp only [leafNodes, List.reverse_cons, List.map_append, List.map_cons, List.map_nil,
      hseen key] at hwalk
    obtain ⟨mid, hrest, hlast⟩ := walk_append hwalk
    have hstart : before.append ((Filters.leaf key op values rest).append tail) =
        (before.append (.leaf key op values .nil)).append (rest.append tail) := by
      simp [append_assoc, Filters.append]
    rw [hstart] at hrest
    obtain ⟨out, conds, hout, hmid⟩ := ih hf.2
      (fun other hother => hplain other (List.mem_cons_of_mem key hother)) (key :: seen)
      (before.append (.leaf key op values .nil)) tail hkeys mid hrest
    have hmid' : mid = (put (before.append (.leaf key op values
        ((out.append tail).append (conditions conds)))), mid.2) := by
      refine Prod.ext ?_ rfl
      rw [hmid]
      simp [append_assoc, Filters.append]
    have hstep := walk_single hlast
    rw [hmid'] at hstep
    obtain ⟨join, column, op', values', hleaf, hcolumn, hstate⟩ :=
      translateFilter_leaf h hbase before _ (hplain key List.mem_cons_self) hf.1 op values
        mid.2 state hstep
    refine ⟨.leaf column op' values' out, conds ++ join.toList.map (·, key),
      ⟨join, conds, hleaf, hcolumn, rfl, hout⟩, ?_⟩
    rw [hstate, conditions_append]
    simp [append_assoc, Filters.append]
  | group key items rest _ ih =>
    have hkeys : ∀ other, (key :: seen).count other =
        (before.append (.group key items .nil)).keys.count other := by
      intro other
      simp [keys_append, Filters.keys, List.count_cons, hseen other]
    have hstart : before.append ((Filters.group key items rest).append tail) =
        (before.append (.group key items .nil)).append (rest.append tail) := by
      simp [append_assoc, Filters.append]
    rw [hstart] at hwalk
    obtain ⟨out, conds, hout, hstate⟩ := ih hf.2.2
      (fun other hother => hplain other (List.mem_append_right _ hother)) (key :: seen)
      (before.append (.group key items .nil)) tail hkeys state hwalk
    refine ⟨.group key items out, conds, ⟨rfl, rfl, hout⟩, ?_⟩
    rw [hstate]
    simp [append_assoc, Filters.append]

/-- What the walk through the groups of a level comes to, wherever the level is put. -/
def GroupsPass (model : Model) (f : Filters) : Prop :=
  ∀ (put : Filters → Filters) (base : List Text) (loc : Loc),
    Context put (rootOp :: base) loc → (∀ node ∈ base, CleanNode node) →
    ∀ (seen : List Text) (before out : Filters) (conds : List (ℕ × Text)) (tail : Filters),
    LeavesTranslated model f out conds →
    (∀ key ∈ logicalOperators, seen.count key = before.keys.count key) →
    ∀ (found : ℕ) (state : Filters × ℕ),
    Walk model ((groupPaths f seen).map fun nodes => joinPath (base ++ nodes))
      (put (before.append (out.append tail)), found) state →
    ∃ final, Translated model (ofFilters f) final conds ∧
      state.1 = put (before.append (final.append tail))

/-- A level: first its leaves, then its groups. -/
theorem level_pass {put : Filters → Filters} {base : List Text} {loc : Loc}
    (h : Context put (rootOp :: base) loc) (hbase : ∀ node ∈ base, CleanNode node)
    (f : Filters) (hf : WellFormed f) (hplain : ∀ key ∈ leafKeys f, Plain key)
    (hgroups : GroupsPass model f) (found : ℕ) (state : Filters × ℕ)
    (hwalk : Walk model ((levelPaths f).map fun nodes => joinPath (base ++ nodes))
      (put f, found) state) :
    ∃ nodes conds, Translated model (ofFilters f) nodes conds ∧
      state.1 = put (nodes.append (conditions conds)) := by
  rw [levelPaths, List.map_append, List.map_map] at hwalk
  obtain ⟨mid, hleaves, hrest⟩ := walk_append hwalk
  have hstart : f = Filters.nil.append (f.append .nil) := by simp
  rw [hstart] at hleaves
  obtain ⟨out, conds, hout, hmid⟩ := leaves_pass h hbase f hf hplain [] .nil .nil
    (fun key => rfl) found mid (by simpa [Function.comp_def] using hleaves)
  have hmid' : mid = (put (Filters.nil.append (out.append (conditions conds))), mid.2) := by
    refine Prod.ext ?_ rfl
    rw [hmid]
    simp
  rw [hmid'] at hrest
  obtain ⟨nodes, hnodes, hstate⟩ := hgroups put base loc h hbase [] .nil out conds
    (conditions conds) hout (fun _ _ => rfl) mid.2 state hrest
  exact ⟨nodes, conds, hnodes, hstate⟩

theorem groups_pass (f : Filters) (hf : WellFormed f) (hplain : ∀ key ∈ leafKeys f, Plain key) :
    GroupsPass model f := by
  induction f with
  | nil =>
    intro put base loc h hbase seen before out conds tail hout hseen found state hwalk
    cases out with
    | nil =>
      have hstate := walk_nil hwalk
      exact ⟨.nil, hout, by simp [← hstate]⟩
    | leaf column op values out => exact hout.elim
    | group key items out => exact hout.elim
  | leaf key op values rest ih =>
    intro put base loc h hbase seen before out conds tail hout hseen found state hwalk
    cases out with
    | nil => exact hout.elim
    | group key' items out => exact hout.elim
    | leaf column op' values' out =>
      obtain ⟨join, conds', hleaf, hcolumn, hconds, hrest⟩ := hout
      have hkeys : ∀ other ∈ logicalOperators, (key :: seen).count other =
          (before.append (.leaf column op' values' .nil)).keys.count other := by
        intro other hother
        have hkey : key ≠ other := fun heq => hf.1 (heq ▸ hother)
        have hcol : column ≠ other := fun heq => hcolumn.2 (heq ▸ hother)
        simp [keys_append, Filters.keys, hseen other hother, hkey, hcol]
      have hstart : before.append ((Filters.leaf column op' values' out).append tail) =
          (before.append (.leaf column op' values' .nil)).append (out.append tail) := by
        simp [append_assoc, Filters.append]
      rw [hstart] at hwalk
      obtain ⟨final, hfinal, hstate⟩ := ih hf.2
        (fun other hother => hplain other (List.mem_cons_of_mem key hother)) put base loc h
        hbase (key :: seen) _ out conds' tail hrest hkeys found state hwalk
      refine ⟨.leaf column op' values' final, ⟨join, conds', hleaf, hconds, hfinal⟩, ?_⟩
      rw [hstate]
      simp [append_assoc, Filters.append]
  | group key items rest ihitems ihrest =>
    intro put base loc h hbase seen before out conds tail hout hseen found state hwalk
    cases out with
    | nil => exact hout.elim
    | leaf column op' values' out => exact hout.elim
    | group key' items' out =>
      obtain ⟨hkey, hitems, hrest⟩ := hout
      subst hkey hitems
      have hplainkey := plain_logical key' hf.1
      simp only [groupPaths, List.map_append, List.map_map, hseen key' hf.1] at hwalk
      obtain ⟨mid, hinner, houter⟩ := walk_append hwalk
      have hcontext := context_group h before (out.append tail) key' hplainkey
      have hclean := clean_leafPath hbase hplainkey (before.keys.count key' + 1)
      obtain ⟨nodes, inner, hnodes, hmid⟩ := level_pass hcontext hclean items' hf.2.1
        (fun other hother => hplain other (List.mem_append_left _ hother))
        (ihitems hf.2.1 (fun other hother => hplain other (List.mem_append_left _ hother)))
        found mid (by simpa [levelPaths, Function.comp_def, Filters.append] using hinner)
      have hkeys : ∀ other ∈ logicalOperators, (key' :: seen).count other =
          (before.append (.group key' (nodes.append (conditions inner)) .nil)).keys.count
            other := by
        intro other hother
        simp [keys_append, Filters.keys, List.count_cons, hseen other hother]
      have hmid' : mid = (put ((before.append (.group key' (nodes.append (conditions inner))
          .nil)).append (out.append tail)), mid.2) := by
        refine Prod.ext ?_ rfl
        rw [hmid]
        simp [append_assoc, Filters.append]
      rw [hmid'] at houter
      obtain ⟨final, hfinal, hstate⟩ := ihrest hf.2.2
        (fun other hother => hplain other (List.mem_append_right _ hother)) put base loc h
        hbase (key' :: seen) _ out conds tail hrest hkeys mid.2 state houter
      refine ⟨.group key' (nodes.append (conditions inner)) final,
        ⟨rfl, ⟨nodes, inner, rfl, hnodes⟩, hfinal⟩, ?_⟩
      rw [hstate]
      simp [append_assoc, Filters.append]

/-- A tree with plain keys is translated as a whole. -/
theorem getDbiFormatFilters_translated (items : Filters) (hitems : WellFormed items)
    (hplain : ∀ key ∈ leafKeys items, Plain key) (s : Filters)
    (h : getDbiFormatFilters model (.group rootOp items .nil) = .ok s) :
    ∃ nodes conds, s = .group rootOp (nodes.append (conditions conds)) .nil ∧
      Translated model (ofFilters items) nodes conds := by
  simp only [getDbiFormatFilters, filterList_eq rootOp items .nil hitems, bind_ok,
    Except.ok.injEq, exists_eq_left', pure_ok] at h
  obtain ⟨state, hwalk, hstate⟩ := h
  obtain ⟨nodes, conds, hnodes, hput⟩ := level_pass context_root (by simp) items hitems hplain
    (groups_pass items hitems hplain) 0 state hwalk
  exact ⟨nodes, conds, hstate ▸ hput, hnodes⟩

end Passes

end Qvd.FilterRewrite
