import Qvd.ElementAcls
import Qvd.FilterRewrite
import Qvd.RawKeys

/-!
Which filters of a request reach the database as they were asked for. The filters that the
API adds stand beside those of the request. A tree whose keys are plain, and whose values
have one operator, is translated as a whole; of several operators all but one are lost, and
a key that is not plain gets there untranslated.
-/
namespace Qvd.FilterSanitation

open NumberedPath RestFilter RestModel RequestChecks RequestBuild FilterPaths FilterContext
  RequestedFilters FilterRewrite RawKeys ElementAcls Checks

section Own

/-- The filters of a request are those of the query, and after them some of the API. -/
def Owned (items : Filters) (request : Request) : Prop :=
  ∃ own, OwnFilters own ∧ request.filters = .group rootOp (items.append own) .nil

variable {items : Filters}

theorem ownFilters_append {f g : Filters} (hf : OwnFilters f) (hg : OwnFilters g) :
    OwnFilters (f.append g) := by
  induction f with
  | nil => exact hg
  | leaf key op values rest ih => exact ⟨hf.1, ih hf.2⟩
  | group key items rest _ _ => exact hf.elim

theorem ownKey_facts : ∀ key ∈ ownKeys,
    Plain key ∧ key ∉ logicalOperators ∧ splitPath key = [key] := by
  decide

theorem ownFilters_leafKeys {f : Filters} (hf : OwnFilters f) :
    ∀ key ∈ leafKeys f, Plain key := by
  induction f with
  | nil => simp [leafKeys]
  | leaf key op values rest ih =>
    intro other hother
    rcases List.mem_cons.mp hother with heq | hrest
    · exact heq ▸ (ownKey_facts key hf.1).1
    · exact ih hf.2 other hrest
  | group key items rest _ _ => exact hf.elim

theorem ownFilters_wellFormed {f : Filters} (hf : OwnFilters f) : WellFormed f := by
  induction f with
  | nil => trivial
  | leaf key op values rest ih => exact ⟨(ownKey_facts key hf.1).2.1, ih hf.2⟩
  | group key items rest _ _ => exact hf.elim

theorem normalizePair_leaf {key : Text} (hkey : key ∉ logicalOperators) {value : Json}
    {new : Filters} (h : normalizePair key value = .ok new) :
    ∃ op values, new = .leaf key op values .nil := by
  rw [normalizePair] at h
  split at h
  · cases h
  · next f hitems =>
    simp only [normalizeItems, Json.key?, if_neg hkey, bind_ok, pure_ok, Except.ok.injEq,
      exists_eq_left'] at hitems
    obtain ⟨⟨op, values⟩, _, hleaf⟩ := hitems
    rw [← Except.ok.inj h]
    exact ⟨op, values, hleaf.symm⟩

theorem addAtRoot_owned {key : Text} (hkey : key ∈ ownKeys) {value : Json}
    {request request' : Request} (howned : Owned items request)
    (h : addAtRoot request key value = .ok request') : Owned items request' := by
  obtain ⟨own, hown, hfilters⟩ := howned
  obtain ⟨_, hlogical, hsplit⟩ := ownKey_facts key hkey
  simp only [addAtRoot, addFilter, hsplit, bind_ok, pure_ok] at h
  obtain ⟨f, ⟨new, hnew, hadd⟩, hrequest⟩ := h
  obtain ⟨op, values, hleaf⟩ := normalizePair_leaf hlogical hnew
  rw [hfilters] at hadd
  have hlevel := addBelow_level context_root (by simp) (items.append own) new
  have hf : f = .group rootOp ((items.append own).append new) .nil :=
    Except.ok.inj (hadd.symm.trans hlevel)
  refine ⟨own.append new, ownFilters_append hown (hleaf ▸ ⟨hkey, trivial⟩), ?_⟩
  rw [← hrequest, ← append_assoc]
  exact hf

variable {model : Model} {wrapper : JsonWrapper} {request request' : Request}

theorem instantiateArgument_filters (request : Request) (key : Text) (value : Json) :
    (instantiateArgument request key value).filters = request.filters := by
  unfold instantiateArgument
  split <;> rfl

theorem setArgument_filters {argument : Text × Json}
    (h : setArgument model request argument = .ok request') :
    request'.filters = request.filters := by
  unfold setArgument at h
  split at h
  · simp only [bind_ok, pure_ok] at h
    obtain ⟨method, _, heq⟩ := h
    exact heq ▸ rfl
  · simp only [bind_ok, pure_ok] at h
    obtain ⟨key, _, heq⟩ := h
    exact heq ▸ instantiateArgument_filters request key _

theorem setDefault_filters {key : Text}
    (h : setDefault model wrapper request key = .ok request') :
    request'.filters = request.filters := by
  unfold setDefault at h
  split at h
  · exact pure_ok.mp h ▸ rfl
  · simp only [bind_ok, pure_ok] at h
    obtain ⟨dbixKey, _, value, _, heq⟩ := h
    exact heq ▸ instantiateArgument_filters request dbixKey _

theorem setArgumentsInRequest_filters
    (h : setArgumentsInRequest model wrapper request = .ok request') :
    request'.filters = request.filters := by
  rw [setArgumentsInRequest, bind_ok] at h
  obtain ⟨mid, hfold, h⟩ := h
  have hmid : mid.filters = request.filters :=
    foldlM_invariant (fun r : Request => r.filters = request.filters)
      (fun r argument r' hr hstep => (setArgument_filters hstep).trans hr) _ request mid rfl hfold
  split at h
  · exact foldlM_invariant (fun r : Request => r.filters = request.filters)
      (fun r key r' hr hstep => (setDefault_filters hstep).trans hr) _ mid request' hmid h
  · exact pure_ok.mp h ▸ hmid

theorem setNestedQueriesInRequest_filters
    (h : setNestedQueriesInRequest model wrapper request = .ok request') :
    request'.filters = request.filters := by
  apply foldlM_invariant (fun r : Request => r.filters = request.filters) _ _ request request'
    rfl h
  intro r nestedQuery r' hr hstep
  simp only [bind_ok, pure_ok] at hstep
  obtain ⟨method, _, heq⟩ := hstep
  exact heq ▸ hr

theorem setOrderByInRequest_filters
    (h : setOrderByInRequest model wrapper request = .ok request') :
    request'.filters = request.filters := by
  simp only [setOrderByInRequest, bind_ok, pure_ok] at h
  obtain ⟨orderBy, _, heq⟩ := h
  exact heq ▸ rfl

theorem checkUnique_same {filter : Text} (h : checkUnique filter request = .ok request') :
    request' = request := by
  rw [checkUnique, bind_ok] at h
  obtain ⟨values, _, h⟩ := h
  cases values with
  | none => cases h
  | some values =>
    simp only at h
    split at h
    · exact (Except.ok.inj h).symm
    · cases h

theorem checkUniqueRole_same (h : checkUniqueRole model request = .ok request') :
    request' = request := by
  unfold checkUniqueRole at h
  split at h
  · exact checkUnique_same h
  · exact (Except.ok.inj h).symm

theorem checkUniqueAdmin_owned (howned : Owned items request)
    (h : checkUniqueAdmin model request = .ok request') : Owned items request' := by
  unfold checkUniqueAdmin at h
  split at h
  · rw [bind_ok] at h
    obtain ⟨mid, hmid, hcheck⟩ := h
    rw [checkUnique_same hcheck]
    rw [setDefaultAdminId, bind_ok] at hmid
    obtain ⟨value, _, hmid⟩ := hmid
    cases value with
    | none => exact addAtRoot_owned (by decide) howned hmid
    | some values => exact pure_ok.mp hmid ▸ howned
  · exact Except.ok.inj h ▸ howned

theorem hideRecoveryModeAdministrator_owned (howned : Owned items request)
    (h : hideRecoveryModeAdministrator model request = .ok request') :
    Owned items request' := by
  unfold hideRecoveryModeAdministrator at h
  split at h
  · exact addAtRoot_owned (by decide) howned h
  · exact Except.ok.inj h ▸ howned

theorem forzeFilteringByTenant_owned (howned : Owned items request)
    (h : forzeFilteringByTenant model request = .ok request') : Owned items request' := by
  unfold forzeFilteringByTenant at h
  split at h
  · exact Except.ok.inj h ▸ howned
  · rw [bind_ok] at h
    obtain ⟨paths, _, h⟩ := h
    split at h
    · split at h
      · exact Except.ok.inj h ▸ howned
      · cases h
    · split at h
      · exact Except.ok.inj h ▸ howned
      · exact addAtRoot_owned (by decide) howned h

theorem forzeOwnAdminId_owned (howned : Owned items request)
    (h : forzeOwnAdminId model request = .ok request') : Owned items request' := by
  unfold forzeOwnAdminId at h
  split at h
  · split at h
    · simp only [bind_ok, pure_ok] at h
      obtain ⟨key, _, heq⟩ := h
      obtain ⟨own, hown, hfilters⟩ := howned
      exact ⟨own, hown, heq ▸ (instantiateArgument_filters request key _).trans hfilters⟩
    · exact addAtRoot_owned (by decide) howned h
  · exact Except.ok.inj h ▸ howned

theorem forzeFilteringTenantsByTenant_owned (howned : Owned items request)
    (h : forzeFilteringTenantsByTenant model request = .ok request') :
    Owned items request' := by
  unfold forzeFilteringTenantsByTenant at h
  split at h
  · exact addAtRoot_owned (by decide) howned h
  · exact Except.ok.inj h ▸ howned

theorem forzeTenantAssignment_filters
    (h : forzeTenantAssignment model wrapper request = .ok request') :
    request'.filters = request.filters := by
  unfold forzeTenantAssignment at h
  split at h
  · split at h
    · split at h
      · exact Except.ok.inj h ▸ rfl
      · cases h
    · simp only [bind_ok, pure_ok] at h
      obtain ⟨key, _, heq⟩ := h
      exact heq ▸ instantiateArgument_filters request key _
  · exact Except.ok.inj h ▸ rfl

theorem newRequest_owned (hobj : wrapper.filtersObj = .group rootOp items .nil)
    (h : newRequest model wrapper = .ok request) : Owned items request := by
  simp only [newRequest, bind_ok] at h
  obtain ⟨_, _, r₁, harguments, r₂, hnested, r₃, horder, r₄, hrole, r₅, hadmin, r₆, hrecovery,
    r₇, htenant, r₈, hviews, r₉, htenants, hassign⟩ := h
  have hfilters : r₃.filters = .group rootOp (items.append .nil) .nil := by
    rw [setOrderByInRequest_filters horder, setNestedQueriesInRequest_filters hnested,
      setArgumentsInRequest_filters harguments, append_nil]
    exact hobj
  have h₃ : Owned items r₃ := ⟨.nil, trivial, hfilters⟩
  have h₄ : Owned items r₄ := (checkUniqueRole_same hrole) ▸ h₃
  have h₅ : Owned items r₅ := checkUniqueAdmin_owned h₄ hadmin
  have h₆ : Owned items r₆ := hideRecoveryModeAdministrator_owned h₅ hrecovery
  have h₇ : Owned items r₇ := forzeFilteringByTenant_owned h₆ htenant
  have h₈ : Owned items r₈ := forzeOwnAdminId_owned h₇ hviews
  obtain ⟨own, hown, hlast⟩ := forzeFilteringTenantsByTenant_owned h₈ htenants
  exact ⟨own, hown, (forzeTenantAssignment_filters hassign).trans hlast⟩

end Own

section Reading

/-- The normal form has the shape and the keys of the request's tree, and of the comparisons
on each key the first one. -/
def Agrees : Tree → Filters → Prop
  | .nil, .nil => True
  | .leaf key comps rest, .leaf key' op values f =>
    key' = key ∧ (∃ more, comps = (op, values) :: more) ∧ Agrees rest f
  | .group key items rest, .group key' items' f =>
    key' = key ∧ Agrees items items' ∧ Agrees rest f
  | _, _ => False

theorem comparisons_of_comparison {value : Json} {op : Text} {values : List Json}
    (h : comparison value = .ok (op, values)) : ∃ more, comparisons value = (op, values) :: more := by
  cases value with
  | hash entries =>
    cases entries with
    | nil => cases h
    | cons entry rest =>
      rw [comparison] at h
      split at h
      · rw [Except.ok.injEq, Prod.mk.injEq] at h
        refine ⟨rest.map fun entry => (entry.1, operand entry.2), ?_⟩
        rw [comparisons, List.map_cons, ← h.1, ← h.2]
      · cases h
  | null => exact ⟨[], by rw [comparisons, ← Except.ok.inj h]; simp⟩
  | bool b => exact ⟨[], by rw [comparisons, ← Except.ok.inj h]; simp⟩
  | scalar text => exact ⟨[], by rw [comparisons, ← Except.ok.inj h]; simp⟩
  | array items => exact ⟨[], by rw [comparisons, ← Except.ok.inj h]; simp⟩

theorem agrees_normalize (json : Json) (f : Filters) (h : normalizeFilter json = .ok f) :
    Agrees (readFilter json) f := by
  have rule : NormalizeRule (fun json f => Agrees (readFilter json) f)
      (fun items f => Agrees (readItems items) f)
      (fun entries f => Agrees (readEntries entries) f) := by
    refine ⟨?_, ?_, trivial, trivial, ?_, ?_, ?_, ?_, ?_⟩
    · intro entries f hf
      rwa [readFilter]
    · intro items f hf
      rwa [readFilter]
    · intro item key hkey _
      rw [readItems, hkey]
      exact ⟨rfl, ⟨[], rfl⟩, trivial⟩
    · intro key value rest op values f hlogical hvalue hrest
      rw [readEntries, if_neg hlogical]
      exact ⟨rfl, comparisons_of_comparison hvalue, hrest⟩
    · intro key value rest items f hlogical hitems hrest
      rw [readEntries, if_pos hlogical]
      exact ⟨rfl, hitems, hrest⟩
    · intro item key value rest op values f hkey hlogical hvalue hrest
      rw [readItems, hkey, Option.getD_some, if_neg hlogical]
      exact ⟨rfl, comparisons_of_comparison hvalue, hrest⟩
    · intro item key value rest items f hkey hlogical hitems hrest
      rw [readItems, hkey, Option.getD_some, if_pos hlogical]
      exact ⟨rfl, hitems, hrest⟩
  exact rule.all.1 json f h

theorem agrees_leafKeys (tree : Tree) (f : Filters) (h : Agrees tree f) :
    leafKeys f = tree.leaves.map Prod.fst := by
  induction tree generalizing f with
  | nil => cases f <;> first | rfl | exact h.elim
  | leaf key comps rest ih =>
    cases f with
    | leaf key' op values f => simp [leafKeys, Tree.leaves, h.1, ih f h.2.2]
    | nil => exact h.elim
    | group _ _ _ => exact h.elim
  | group key items rest ihitems ihrest =>
    cases f with
    | group key' items' f =>
      simp [leafKeys, Tree.leaves, ihitems items' h.2.1, ihrest f h.2.2]
    | nil => exact h.elim
    | leaf _ _ _ _ => exact h.elim

/-- With one comparison on each key the normal form is the whole tree. -/
theorem eq_ofFilters (tree : Tree) (f : Filters) (h : Agrees tree f)
    (hone : ∀ leaf ∈ tree.leaves, leaf.2.length = 1) : tree = ofFilters f := by
  induction tree generalizing f with
  | nil => cases f <;> first | rfl | exact h.elim
  | leaf key comps rest ih =>
    cases f with
    | leaf key' op values f =>
      obtain ⟨hkey, ⟨more, hcomps⟩, hrest⟩ := h
      have hlength := hone (key, comps) List.mem_cons_self
      simp only [hcomps, List.length_cons, Nat.add_eq_right, List.length_eq_zero_iff] at hlength
      rw [ofFilters, hkey, hcomps, hlength,
        ih f hrest fun leaf hleaf => hone leaf (List.mem_cons_of_mem _ hleaf)]
    | nil => exact h.elim
    | group _ _ _ => exact h.elim
  | group key items rest ihitems ihrest =>
    cases f with
    | group key' items' f =>
      rw [ofFilters, h.1,
        ihitems items' h.2.1 fun leaf hleaf => hone leaf (List.mem_append_left _ hleaf),
        ihrest f h.2.2 fun leaf hleaf => hone leaf (List.mem_append_right _ hleaf)]
    | nil => exact h.elim
    | leaf _ _ _ _ => exact h.elim

theorem ofFilters_append (f g : Filters) :
    ofFilters (f.append g) = (ofFilters f).append (ofFilters g) := by
  induction f with
  | nil => rfl
  | leaf key op values rest ih => simp [Filters.append, ofFilters, Tree.append, ih]
  | group key items rest _ ih => simp [Filters.append, ofFilters, Tree.append, ih]

theorem leaves_append (t u : Tree) : (t.append u).leaves = t.leaves ++ u.leaves := by
  induction t with
  | nil => rfl
  | leaf key comps rest ih => simp [Tree.append, Tree.leaves, ih]
  | group key items rest _ ih => simp [Tree.append, Tree.leaves, ih]

end Reading

section Translation

variable {model : Model}

theorem plain_conditions (conds : List (ℕ × Text)) :
    ∀ key ∈ leafKeys (conditions conds), Plain key := by
  induction conds with
  | nil => simp [conditions, leafKeys]
  | cons cond rest ih =>
    intro key hkey
    rcases List.mem_cons.mp hkey with heq | hrest
    · exact heq ▸ (column_keyColumn cond.1).1
    · exact ih key hrest

theorem leafTranslated_facts {key column op : Text} {comps : List (Text × List Json)}
    {values : List Json} {join : Option ℕ}
    (h : LeafTranslated model key comps column op values join) :
    comps.length = 1 ∧ Plain column := by
  constructor
  · have hlength := congrArg List.length h.1
    rwa [List.length_map] at hlength
  · cases join with
    | none => exact (column_of_mapped h.2.2).1
    | some n => exact h.2.2 ▸ (column_valueColumn n).1

/-- A translation makes one comparison for each key, under a plain column. -/
theorem translated_facts (tree : Tree) (out : Filters) (conds : List (ℕ × Text))
    (h : Translated model tree out conds) :
    (∀ leaf ∈ tree.leaves, leaf.2.length = 1) ∧ ∀ key ∈ leafKeys out, Plain key := by
  induction tree generalizing out conds with
  | nil =>
    cases out with
    | nil => simp [Tree.leaves, leafKeys]
    | leaf _ _ _ _ => exact h.elim
    | group _ _ _ => exact h.elim
  | leaf key comps rest ih =>
    cases out with
    | nil => exact h.elim
    | group _ _ _ => exact h.elim
    | leaf column op values out =>
      obtain ⟨join, conds', hleaf, _, hrest⟩ := h
      obtain ⟨hlength, hcolumn⟩ := leafTranslated_facts hleaf
      obtain ⟨hleaves, hkeys⟩ := ih out conds' hrest
      exact ⟨List.forall_mem_cons.mpr ⟨hlength, hleaves⟩,
        List.forall_mem_cons.mpr ⟨hcolumn, hkeys⟩⟩
  | group key items rest ihitems ihrest =>
    cases out with
    | nil => exact h.elim
    | leaf _ _ _ _ => exact h.elim
    | group key' items' out =>
      obtain ⟨_, ⟨nodes, inner, hitems', hinner⟩, hrest⟩ := h
      obtain ⟨hleaves, hkeys⟩ := ihitems nodes inner hinner
      obtain ⟨hleaves', hkeys'⟩ := ihrest out conds hrest
      refine ⟨List.forall_mem_append.mpr ⟨hleaves, hleaves'⟩, ?_⟩
      rw [leafKeys, hitems', leafKeys_append]
      exact List.forall_mem_append.mpr
        ⟨List.forall_mem_append.mpr ⟨hkeys, plain_conditions inner⟩, hkeys'⟩

end Translation

section Main

variable (model : Model) (acls : List RestTables.AclRe) (query : Query) (request : Request)
  (structured : Filters)

/-- What a request asks for with its filters. -/
def requested (query : Query) : Tree :=
  readFilter (query.filters.getD (.hash []))

variable {model acls query request structured}

/-- The parts of a request that the rewriting starts from. -/
theorem exists_parts (h : processQuery model acls query = .ok request) :
    ∃ wrapper items own, newJson query = .ok wrapper ∧ Checked model wrapper ∧
      wrapper.filtersObj = .group rootOp items .nil ∧ WellFormed items ∧
      Agrees (requested query) items ∧ OwnFilters own ∧
      request.filters = .group rootOp (items.append own) .nil := by
  have hprocess := h
  rw [processQuery, bind_ok] at hprocess
  obtain ⟨wrapper, hwrapper, hrest⟩ := hprocess
  obtain ⟨items, hnormalize, hitems, hobj⟩ := filtersObj_eq hwrapper
  obtain ⟨own, hown, hfilters⟩ := newRequest_owned hobj (seq_ok.mp hrest).2
  exact ⟨wrapper, items, own, hwrapper, checked_of_processQuery hwrapper h, hobj, hitems,
    agrees_normalize _ items hnormalize, hown, hfilters⟩

theorem sanitised_of_plain (h : processQuery model acls query = .ok request)
    (hs : getDbiFormatFilters model request.filters = .ok structured)
    (hplain : ∀ leaf ∈ (requested query).leaves, Plain leaf.1)
    (hone : ∀ leaf ∈ (requested query).leaves, leaf.2.length = 1) :
    Sanitised model (requested query) structured := by
  obtain ⟨wrapper, items, own, hwrapper, hchecked, hobj, hitems, hagrees, hown, hfilters⟩ :=
    exists_parts h
  have hkeys := agrees_leafKeys _ items hagrees
  have hall : ∀ key ∈ leafKeys (items.append own), Plain key := by
    rw [leafKeys_append, hkeys]
    exact List.forall_mem_append.mpr
      ⟨List.forall_mem_map.mpr hplain, ownFilters_leafKeys hown⟩
  rw [hfilters] at hs
  obtain ⟨nodes, conds, hstructured, htranslated⟩ := getDbiFormatFilters_translated
    (items.append own) (wellFormed_append items own hitems (ownFilters_wellFormed hown)) hall
    structured hs
  refine ⟨⟨own, nodes, conds, hown, hstructured, ?_⟩, ?_⟩
  · rwa [eq_ofFilters _ items hagrees hone, ← ofFilters_append]
  · intro leaf hleaf
    apply (plain_filter_checked hwrapper hchecked leaf.1 _ (hplain leaf hleaf)).1
    rw [hobj, leafKeys, hkeys]
    exact List.mem_append_left _ (List.mem_map_of_mem hleaf)

theorem plain_of_sanitised (h : processQuery model acls query = .ok request)
    (hs : getDbiFormatFilters model request.filters = .ok structured)
    (hsanitised : Sanitised model (requested query) structured) :
    ∀ leaf ∈ (requested query).leaves, Plain leaf.1 := by
  intro leaf hleaf
  obtain ⟨wrapper, items, own, _, _, _, _, hagrees, _, hfilters⟩ := exists_parts h
  obtain ⟨_, nodes, conds, _, hstructured, htranslated⟩ := hsanitised.translated
  have hraw : leaf.1 ∈ leafKeys request.filters := by
    rw [hfilters, leafKeys, leafKeys_append, agrees_leafKeys _ items hagrees]
    exact List.mem_append_left _ (List.mem_append_left _ (List.mem_map_of_mem hleaf))
  by_contra hnot
  have hkept := getDbiFormatFilters_kept model hnot request.filters structured hs hraw
  rw [hstructured, leafKeys, leafKeys_append, leafKeys, List.append_nil] at hkept
  rcases List.mem_append.mp hkept with hnodes | hconds
  · exact hnot ((translated_facts _ nodes conds htranslated).2 _ hnodes)
  · exact hnot (plain_conditions conds _ hconds)

theorem one_of_sanitised (hsanitised : Sanitised model (requested query) structured) :
    ∀ leaf ∈ (requested query).leaves, leaf.2.length = 1 := by
  intro leaf hleaf
  obtain ⟨own, nodes, conds, _, _, htranslated⟩ := hsanitised.translated
  apply (translated_facts _ nodes conds htranslated).1
  rw [leaves_append]
  exact List.mem_append_left _ hleaf

variable (model acls query request structured)

/-- The structure for the database is what the request asked for exactly when the keys are
plain and no value has several operators. -/
theorem sanitised_iff (h : processQuery model acls query = .ok request)
    (hs : getDbiFormatFilters model request.filters = .ok structured) :
    Sanitised model (requested query) structured ↔
      ∀ leaf ∈ (requested query).leaves, Plain leaf.1 ∧ leaf.2.length = 1 := by
  constructor
  · intro hsanitised leaf hleaf
    exact ⟨plain_of_sanitised h hs hsanitised leaf hleaf, one_of_sanitised hsanitised leaf hleaf⟩
  · intro hleaves
    exact sanitised_of_plain h hs (fun leaf hleaf => (hleaves leaf hleaf).1)
      fun leaf hleaf => (hleaves leaf hleaf).2

end Main

section Delete

def vmDeleteAcls : List RestTables.AclRe :=
  [RestTables.startsWith "vm.delete.", RestTables.only "tenant.purge."]

/-- The deletion of virtual machines, by an administrator who may do it, where the database
has some custom properties. -/
def vmDelete (properties : List PropertyRow) : Model where
  administrator := {
    id := 5
    tenantId := 3
    acls := words ["vm.delete. vm.see.properties"]
    scope := [3] }
  qvdObject := "VM"
  typeOfAction := .delete
  properties
  multitenant := true
  computeDefault := fun _ _ => .ok none
  computeValue := fun _ value => value

def filtered (filters : Json) : Query where
  filters := some filters
  arguments := []
  fields := []
  orderDirection := none
  orderCriteria := none

/-- A request for the machines from 2 to 4. -/
def between : Query :=
  filtered (.hash [("id".toList,
    .hash [(">".toList, .scalar ['1']), ("<".toList, .scalar ['5'])])])

def handedOver (model : Model) (query : Query) : Except ApiError Filters := do
  let request ← processQuery model vmDeleteAcls query
  getDbiFormatFilters model request.filters

theorem between_not_sanitised :
    ∃ request structured, processQuery (vmDelete []) vmDeleteAcls between = .ok request ∧
      getDbiFormatFilters (vmDelete []) request.filters = .ok structured ∧
      ¬ Sanitised (vmDelete []) (requested between) structured := by
  obtain ⟨structured, hhanded⟩ : ∃ structured, handedOver (vmDelete []) between =
    .ok structured := exists_ok (by decide +kernel)
  obtain ⟨request, hrequest, hstructured⟩ := bind_ok.mp hhanded
  refine ⟨request, structured, hrequest, hstructured, ?_⟩
  intro hsanitised
  have hone := one_of_sanitised hsanitised
  revert hone
  decide

/-- One machine of two is asked for, through a group. -/
def either : Query :=
  filtered (.hash [("-or".toList, .array
    [.scalar "id".toList, .scalar ['1'], .scalar "id".toList, .scalar ['2']])])

theorem sanitised_iff_either :
    ∃ request structured, processQuery (vmDelete []) vmDeleteAcls either = .ok request ∧
      getDbiFormatFilters (vmDelete []) request.filters = .ok structured ∧
      (Sanitised (vmDelete []) (requested either) structured ↔
        ∀ leaf ∈ (requested either).leaves, Plain leaf.1 ∧ leaf.2.length = 1) := by
  obtain ⟨structured, hhanded⟩ : ∃ structured, handedOver (vmDelete []) either =
    .ok structured := exists_ok (by decide +kernel)
  obtain ⟨request, hrequest, hstructured⟩ := bind_ok.mp hhanded
  exact ⟨request, structured, hrequest, hstructured,
    sanitised_iff (vmDelete []) vmDeleteAcls either request structured hrequest hstructured⟩

/-- Where there is a property with the name of a column, a key that is not plain can reach
the database: its path is taken for that of the translated leaf beside it. -/
example : ((handedOver (vmDelete [⟨"me.id".toList, 3⟩]) (filtered (.array
    [.scalar "-and::me.id".toList, .scalar ['1'],
      .scalar "id".toList, .scalar ['2']]))).toOption.map leafKeys).any
    (·.contains "-and::me.id".toList) = true := by
  decide +kernel

end Delete

end Qvd.FilterSanitation
