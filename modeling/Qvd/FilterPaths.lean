import Qvd.Checks
import Qvd.RestFilter

/-!
The paths of a filter tree, in two readings: as the texts that the code writes and splits,
and as the lists of the nodes they go through. On a tree whose groups, and no other nodes,
have the keys of logical operators, the texts are those of the node lists. Where the key of
a leaf is plain, splitting its path gives the nodes back, and reading the path's name gives
the key.
-/
namespace Qvd.FilterPaths

open NumberedPath RestFilter Checks

section Normal

variable {P : Json → Filters → Prop} {Q : List Json → Filters → Prop}
  {R : List (Text × Json) → Filters → Prop}

/-- The ways a normal form comes about, as a rule of induction. -/
structure NormalizeRule (P : Json → Filters → Prop) (Q : List Json → Filters → Prop)
    (R : List (Text × Json) → Filters → Prop) : Prop where
  hash : ∀ entries f, R entries f → P (.hash entries) f
  array : ∀ items f, Q items f → P (.array items) f
  noEntry : R [] .nil
  noItem : Q [] .nil
  loneKey : ∀ item key, item.key? = some key → key ∉ logicalOperators →
    Q [item] (.leaf key defaultComparisonOp [.null] .nil)
  leafEntry : ∀ key value rest op values f, key ∉ logicalOperators →
    comparison value = .ok (op, values) → R rest f →
    R ((key, value) :: rest) (.leaf key op values f)
  groupEntry : ∀ key value rest items f, key ∈ logicalOperators → P value items → R rest f →
    R ((key, value) :: rest) (.group key items f)
  leafItem : ∀ item key value rest op values f, item.key? = some key →
    key ∉ logicalOperators → comparison value = .ok (op, values) → Q rest f →
    Q (item :: value :: rest) (.leaf key op values f)
  groupItem : ∀ item key value rest items f, item.key? = some key →
    key ∈ logicalOperators → P value items → Q rest f →
    Q (item :: value :: rest) (.group key items f)

theorem NormalizeRule.all (rule : NormalizeRule P Q R) :
    (∀ json f, normalizeFilter json = .ok f → P json f) ∧
    (∀ items f, normalizeItems items = .ok f → Q items f) ∧
    (∀ entries f, normalizeEntries entries = .ok f → R entries f) := by
  apply normalizeFilter.mutual_induct (fun json => ∀ f, normalizeFilter json = .ok f → P json f)
    (fun items => ∀ f, normalizeItems items = .ok f → Q items f)
    (fun entries => ∀ f, normalizeEntries entries = .ok f → R entries f)
  · intro entries ih f h
    rw [normalizeFilter] at h
    exact rule.hash entries f (ih f h)
  · intro items ih f h
    rw [normalizeFilter] at h
    exact rule.array items f (ih f h)
  · intro json hhash harray f h
    cases json with
    | hash entries => exact absurd rfl (hhash entries)
    | array items => exact absurd rfl (harray items)
    | null => simp [normalizeFilter] at h
    | bool b => simp [normalizeFilter] at h
    | scalar text => simp [normalizeFilter] at h
  · intro f h
    rw [normalizeItems, Except.ok.injEq] at h
    exact h ▸ rule.noItem
  · intro item hkey f h
    simp [normalizeItems, hkey] at h
  · intro item key hkey hlogical f h
    simp [normalizeItems, hkey, hlogical] at h
  · intro item key hkey hlogical f h
    simp only [normalizeItems, hkey, if_neg hlogical, Except.ok.injEq] at h
    exact h ▸ rule.loneKey item key hkey hlogical
  · intro item value rest hkey f h
    simp [normalizeItems, hkey] at h
  · intro item value rest key hkey hlogical ihvalue ihrest f h
    simp only [normalizeItems, hkey, if_pos hlogical, bind_ok, pure_ok] at h
    obtain ⟨items, hitems, f', hf', hgroup⟩ := h
    exact hgroup ▸ rule.groupItem item key value rest items f' hkey hlogical
      (ihvalue items hitems) (ihrest f' hf')
  · intro item value rest key hkey hlogical ihrest f h
    simp only [normalizeItems, hkey, if_neg hlogical, bind_ok, pure_ok] at h
    obtain ⟨⟨op, values⟩, hvalue, f', hf', hleaf⟩ := h
    exact hleaf ▸ rule.leafItem item key value rest op values f' hkey hlogical hvalue
      (ihrest f' hf')
  · intro f h
    rw [normalizeEntries, Except.ok.injEq] at h
    exact h ▸ rule.noEntry
  · intro key value rest hlogical ihvalue ihrest f h
    simp only [normalizeEntries, if_pos hlogical, bind_ok, pure_ok] at h
    obtain ⟨items, hitems, f', hf', hgroup⟩ := h
    exact hgroup ▸ rule.groupEntry key value rest items f' hlogical (ihvalue items hitems)
      (ihrest f' hf')
  · intro key value rest hlogical ihrest f h
    simp only [normalizeEntries, if_neg hlogical, bind_ok, pure_ok] at h
    obtain ⟨⟨op, values⟩, hvalue, f', hf', hleaf⟩ := h
    exact hleaf ▸ rule.leafEntry key value rest op values f' hlogical hvalue (ihrest f' hf')

/-- The keys of the groups are the logical operators. -/
def WellFormed : Filters → Prop
  | .nil => True
  | .leaf key _ _ rest => key ∉ logicalOperators ∧ WellFormed rest
  | .group key items rest => key ∈ logicalOperators ∧ WellFormed items ∧ WellFormed rest

theorem wellFormed_normalize (json : Json) (f : Filters) (h : normalizeFilter json = .ok f) :
    WellFormed f := by
  have rule : NormalizeRule (fun _ f => WellFormed f) (fun _ f => WellFormed f)
      (fun _ f => WellFormed f) := {
    hash := fun _ _ hf => hf
    array := fun _ _ hf => hf
    noEntry := trivial
    noItem := trivial
    loneKey := fun _ _ _ hlogical => ⟨hlogical, trivial⟩
    leafEntry := fun _ _ _ _ _ _ hlogical _ hrest => ⟨hlogical, hrest⟩
    groupEntry := fun _ _ _ _ _ hlogical hitems hrest => ⟨hlogical, hitems, hrest⟩
    leafItem := fun _ _ _ _ _ _ _ _ hlogical _ hrest => ⟨hlogical, hrest⟩
    groupItem := fun _ _ _ _ _ _ _ hlogical hitems hrest => ⟨hlogical, hitems, hrest⟩ }
  exact rule.all.1 json f h

end Normal

section Nodes

/-- The keys of the leaves of all levels. -/
def leafKeys : Filters → List Text
  | .nil => []
  | .leaf key _ _ rest => key :: leafKeys rest
  | .group _ items rest => leafKeys items ++ leafKeys rest

/-- The nodes of the leaves of a level, numbered after the keys seen before. -/
def leafNodes : Filters → List Text → List Text
  | .nil, _ => []
  | .leaf key _ _ rest, seen =>
    numbered key (seen.count key + 1) :: leafNodes rest (key :: seen)
  | .group key _ rest, seen => leafNodes rest (key :: seen)

/-- The paths that go through the groups of a level. -/
def groupPaths : Filters → List Text → List (List Text)
  | .nil, _ => []
  | .leaf key _ _ rest, seen => groupPaths rest (key :: seen)
  | .group key items rest, seen =>
    ((leafNodes items []).reverse.map (fun node => [node]) ++ groupPaths items []).map
      (numbered key (seen.count key + 1) :: ·) ++ groupPaths rest (key :: seen)

/-- The paths of a level in the order of the code. -/
def levelPaths (f : Filters) : List (List Text) :=
  (leafNodes f []).reverse.map (fun node => [node]) ++ groupPaths f []

/-- The text of a path below an origin. -/
def below (origin : Text) (nodes : List Text) : Text :=
  if origin = [] then joinPath nodes else origin ++ ':' :: ':' :: joinPath nodes

theorem numbered_ne_nil (name : Text) (n : ℕ) : numbered name n ≠ [] := by
  simp [numbered]

theorem joinPath_singleton (node : Text) : joinPath [node] = node := by
  simp [joinPath, List.intercalate]

theorem joinPath_cons (node : Text) (nodes : List Text) (h : nodes ≠ []) :
    joinPath (node :: nodes) = node ++ ':' :: ':' :: joinPath nodes := by
  cases nodes with
  | nil => exact absurd rfl h
  | cons next rest => simp [joinPath, List.intercalate]

theorem extendPath_eq_below (origin key : Text) (n : ℕ) :
    extendPath origin key n = below origin [numbered key n] := by
  by_cases horigin : origin = []
  · simp [extendPath, below, horigin, joinPath_singleton]
  · simp [extendPath, below, horigin, joinPath_singleton, numbered]

theorem below_below (origin node : Text) (nodes : List Text) (hnode : node ≠ [])
    (hnodes : nodes ≠ []) :
    below (below origin [node]) nodes = below origin (node :: nodes) := by
  have hne : below origin [node] ≠ [] := by
    by_cases horigin : origin = []
    · simpa [below, horigin, joinPath_singleton] using hnode
    · simp [below, horigin]
  rw [below, if_neg hne]
  by_cases horigin : origin = []
  · simp [below, horigin, joinPath_singleton, joinPath_cons node nodes hnodes]
  · simp [below, horigin, joinPath_singleton, joinPath_cons node nodes hnodes]

theorem groupPaths_ne_nil (f : Filters) (seen : List Text) :
    ∀ path ∈ groupPaths f seen, path ≠ [] := by
  induction f generalizing seen with
  | nil => simp [groupPaths]
  | leaf key op values rest ih => exact ih (key :: seen)
  | group key items rest _ ih =>
    intro path hpath
    rcases List.mem_append.mp hpath with hinner | hrest
    · obtain ⟨inner, _, hcons⟩ := List.mem_map.mp hinner
      exact hcons ▸ List.cons_ne_nil _ inner
    · exact ih (key :: seen) path hrest

theorem levelPaths_ne_nil (f : Filters) : ∀ path ∈ levelPaths f, path ≠ [] := by
  intro path hpath
  rcases List.mem_append.mp hpath with hleaf | hgroup
  · obtain ⟨node, _, hnode⟩ := List.mem_map.mp hleaf
    exact hnode ▸ List.cons_ne_nil node []
  · exact groupPaths_ne_nil f [] path hgroup

/-- The code's paths are the texts of the node lists. -/
theorem pathsFrom_eq (f : Filters) (hf : WellFormed f) (origin : Text) (seen : List Text)
    (paths : List Text) :
    pathsFrom origin f seen paths =
      .ok ((leafNodes f seen).reverse.map (fun node => below origin [node]) ++ paths ++
        (groupPaths f seen).map (below origin)) := by
  induction f generalizing origin seen paths with
  | nil => simp [pathsFrom, leafNodes, groupPaths]
  | leaf key op values rest ih =>
    rw [pathsFrom, if_neg hf.1, ih hf.2, extendPath_eq_below]
    simp [leafNodes, groupPaths]
  | group key items rest ihitems ihrest =>
    have hne := numbered_ne_nil key (seen.count key + 1)
    have hbelow : ∀ nodes ∈ levelPaths items,
        below (below origin [numbered key (seen.count key + 1)]) nodes =
          below origin (numbered key (seen.count key + 1) :: nodes) :=
      fun nodes hnodes => below_below origin _ nodes hne (levelPaths_ne_nil items nodes hnodes)
    have hinner : pathsFrom (extendPath origin key (seen.count key + 1)) items [] [] =
        .ok ((levelPaths items).map fun nodes =>
          below origin (numbered key (seen.count key + 1) :: nodes)) := by
      rw [ihitems hf.2.1, extendPath_eq_below, ← List.map_congr_left hbelow]
      simp [levelPaths, Function.comp_def]
    rw [pathsFrom, if_pos hf.1, hinner]
    simp only [bind, Except.bind, ihrest hf.2.2]
    simp [leafNodes, groupPaths, levelPaths, Function.comp_def]

theorem filterList_eq (key : Text) (items rest : Filters) (hf : WellFormed items) :
    filterList (.group key items rest) = .ok ((levelPaths items).map joinPath) := by
  rw [filterList, pathsFrom_eq items hf]
  simp [levelPaths, below, Function.comp_def]

end Nodes

section Plain

/-- A key that splitting and reading take for one name. -/
def Plain (key : Text) : Prop :=
  hasSep key = false ∧ '\n' ∉ key

instance (key : Text) : Decidable (Plain key) :=
  inferInstanceAs (Decidable (_ ∧ _))

/-- A node that splitting gives back. -/
def CleanNode (node : Text) : Prop :=
  (hasSep (node ++ [':']) = false ∧ hasSep node = false) ∧ node ≠ []

theorem plain_logical : ∀ key ∈ logicalOperators, Plain key := by
  decide

theorem cleanNode_rootOp : CleanNode rootOp := by
  unfold CleanNode
  decide

theorem cleanNode_numbered {key : Text} (hkey : Plain key) (n : ℕ) :
    CleanNode (numbered key n) :=
  ⟨hasSep_numbered key n hkey.1, numbered_ne_nil key n⟩

theorem splitPath_joinPath (nodes : List Text) (hne : nodes ≠ [])
    (h : ∀ node ∈ nodes, CleanNode node) : splitPath (joinPath nodes) = nodes := by
  rw [splitPath, parts_joinPath nodes hne fun node hnode => (h node hnode).1]
  have hlast := List.dropLast_concat_getLast hne
  rw [← hlast]
  exact dropTrailingEmpty_of_last _ _ (h _ (List.getLast_mem hne)).2

theorem splitPath_rootPath (nodes : List Text) (hne : nodes ≠ [])
    (h : ∀ node ∈ nodes, CleanNode node) :
    splitPath (rootPath (joinPath nodes)) = rootOp :: nodes := by
  rw [rootPath, ← joinPath_cons rootOp nodes hne]
  apply splitPath_joinPath _ (List.cons_ne_nil rootOp nodes)
  intro node hnode
  rcases List.mem_cons.mp hnode with hroot | hnode
  · exact hroot ▸ cleanNode_rootOp
  · exact h node hnode

theorem nameFromPath_joinPath (base : List Text) (key : Text) (n : ℕ)
    (hbase : ∀ node ∈ base, CleanNode node) (hkey : Plain key) :
    nameFromPath (joinPath (base ++ [numbered key n])) = key := by
  have hclean : ∀ node ∈ base ++ [numbered key n], CleanNode node := by
    intro node hnode
    rcases List.mem_append.mp hnode with hnode | hnode
    · exact hbase node hnode
    · exact List.mem_singleton.mp hnode ▸ cleanNode_numbered hkey n
  rw [nameFromPath, splitPath_joinPath _ (by simp) hclean, List.getLast?_concat]
  simp [nameAndCounter_numbered key n hkey.2]

theorem basedirFromPath_joinPath (base : List Text) (node : Text)
    (h : ∀ other ∈ base ++ [node], CleanNode other) :
    basedirFromPath (joinPath (base ++ [node])) = joinPath base := by
  rw [basedirFromPath, splitPath_joinPath _ (by simp) h, List.dropLast_concat]

/-- The keys of leaves end the paths of a level. -/
theorem exists_path_of_leafKey (f : Filters) (hf : WellFormed f) (seen : List Text) :
    ∀ key ∈ leafKeys f, ∃ base n, base ++ [numbered key n] ∈
      (leafNodes f seen).reverse.map (fun node => [node]) ++ groupPaths f seen ∧
      ∀ node ∈ base, CleanNode node := by
  induction f generalizing seen with
  | nil => simp [leafKeys]
  | leaf key' op values rest ih =>
    intro key hkey
    rcases List.mem_cons.mp hkey with heq | hrest
    · refine ⟨[], seen.count key + 1, ?_, by simp⟩
      simp [leafNodes, heq]
    · obtain ⟨base, n, hmem, hbase⟩ := ih hf.2 (key' :: seen) key hrest
      refine ⟨base, n, ?_, hbase⟩
      rcases List.mem_append.mp hmem with hleaf | hgroup
      · apply List.mem_append_left
        simp only [leafNodes, List.reverse_cons, List.map_append]
        exact List.mem_append_left _ hleaf
      · exact List.mem_append_right _ hgroup
  | group key' items rest ihitems ihrest =>
    intro key hkey
    rcases List.mem_append.mp hkey with hitems | hrest
    · obtain ⟨base, n, hmem, hbase⟩ := ihitems hf.2.1 [] key hitems
      refine ⟨numbered key' (seen.count key' + 1) :: base, n, ?_, ?_⟩
      · apply List.mem_append_right
        apply List.mem_append_left
        exact List.mem_map_of_mem hmem
      · intro node hnode
        rcases List.mem_cons.mp hnode with heq | hnode
        · exact heq ▸ cleanNode_numbered (plain_logical key' hf.1) _
        · exact hbase node hnode
    · obtain ⟨base, n, hmem, hbase⟩ := ihrest hf.2.2 (key' :: seen) key hrest
      refine ⟨base, n, ?_, hbase⟩
      rcases List.mem_append.mp hmem with hleaf | hgroup
      · exact List.mem_append_left _ hleaf
      · exact List.mem_append_right _ (List.mem_append_right _ hgroup)

/-- Every plain key of a leaf is among the names read from the paths. -/
theorem plain_key_mem_names (key : Text) (items rest : Filters) (hf : WellFormed items)
    (paths : List Text) (h : filterList (.group key items rest) = .ok paths) (name : Text)
    (hname : name ∈ leafKeys items) (hplain : Plain name) :
    name ∈ paths.map nameFromPath := by
  rw [filterList_eq key items rest hf, Except.ok.injEq] at h
  obtain ⟨base, n, hmem, hbase⟩ := exists_path_of_leafKey items hf [] name hname
  rw [← h, List.map_map]
  apply List.mem_map.mpr
  exact ⟨_, hmem, nameFromPath_joinPath base name n hbase hplain⟩

end Plain

end Qvd.FilterPaths
