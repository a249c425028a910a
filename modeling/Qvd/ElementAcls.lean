import Qvd.FilterPaths
import Qvd.RequestBuild

/-!
Which ACLs a request that is executed has been checked for. The Model lists ACLs for each
element of a request in its type of action; the checks ask for those of filters, order
criteria, creation arguments and, of nested queries, for those of an update. What they do
not ask for is what the administrator may lack.
-/
namespace Qvd.ElementAcls

open NumberedPath RestFilter RestModel RestTables RequestChecks RequestBuild FilterPaths Checks

inductive Element
  | filter (name : Text)
  | field (name : Text)
  | orderCriterium (name : Text)
  | argument (name : Text)
  | nestedQuery (name : Text)

section Listed

variable (model : Model) (wrapper : JsonWrapper)

def Contains : Element → Prop
  | .filter name => name ∈ leafKeys wrapper.filtersObj
  | .field name => name ∈ wrapper.fields
  | .orderCriterium name => name ∈ wrapper.orderCriteria.getD []
  | .argument name => name ∈ wrapper.argumentsList
  | .nestedQuery name => name ∈ wrapper.nestedQueriesList

/-- In an update the ACLs of arguments are those of the update, in a creation those of the
creation. -/
def argumentAcls (name : Text) : List AclRe :=
  match model.typeOfAction with
  | .update => model.getAclsForArgumentInUpdate name
  | .create | .createOrUpdate => model.getAclsForArgumentInCreation name
  | _ => []

def nestedQueryAcls (name : Text) : List AclRe :=
  match model.typeOfAction with
  | .update => model.getAclsForNestedQueryInUpdate name
  | .create | .createOrUpdate => model.getAclsForNestedQueryInCreation name
  | _ => []

/-- The ACLs the Model lists for an element. Those of a custom property are those of the
properties of the object. -/
def listedAcls : Element → List AclRe
  | .filter name => model.getAclsForFilter (filterAclKey model name)
  | .field name => model.getAclsForField (filterAclKey model name)
  | .orderCriterium name => model.getAclsForOrderCriterium name
  | .argument name => argumentAcls model name
  | .nestedQuery name => nestedQueryAcls model name

/-- The administrator is allowed the ACLs of every element of the request. -/
def Enforced : Prop :=
  ∀ element, Contains wrapper element → allowed model (listedAcls model element) = true

/-- The administrator is allowed the ACLs that no check asks for: those of the arguments of
an update, those of the creation for a nested query, those of properties for a field that
is one, and those of a filter whose path does not end with its key. -/
structure UncheckedAllowed : Prop where
  updateArguments : model.typeOfAction = .update → ∀ name ∈ wrapper.argumentsList,
    allowed model (model.getAclsForArgumentInUpdate name) = true
  nestedQueries : model.typeOfAction.creates = true → ∀ name ∈ wrapper.nestedQueriesList,
    allowed model (model.getAclsForNestedQueryInCreation name) = true
  propertyFields : ∀ name ∈ wrapper.fields, model.hasProperty name = true →
    allowed model (model.getAclsForField "properties".toList) = true
  splitFilters : ∀ name ∈ leafKeys wrapper.filtersObj, ¬ Plain name →
    allowed model (model.getAclsForFilter (filterAclKey model name)) = true

end Listed

section Spec

variable {model : Model} {wrapper : JsonWrapper}

theorem fields_allowed (h : checkFieldsValidity model wrapper = .ok ()) :
    ∀ field ∈ wrapper.fields, allowed model (model.getAclsForField field) = true := by
  intro field hfield
  have hchecks := (forM_ok wrapper.fields).mp h field hfield
  rw [seq_ok, check_ok, check_ok] at hchecks
  exact hchecks.2

/-- A name that the request may filter by, and whose ACLs the administrator is allowed. -/
def FilterChecked (model : Model) (name : Text) : Prop :=
  (name ∈ model.availableFilters ∨ model.hasProperty name = true) ∧
    allowed model (model.getAclsForFilter (filterAclKey model name)) = true

theorem filters_checked (h : checkFiltersValidity model wrapper = .ok ()) :
    ∃ filters, wrapper.filterNameList = .ok filters ∧
      ∀ filter ∈ filters, FilterChecked model filter := by
  rw [checkFiltersValidity, bind_ok] at h
  obtain ⟨filters, hfilters, hchecks⟩ := h
  rw [seq_ok, seq_ok] at hchecks
  refine ⟨filters, hfilters, ?_⟩
  intro filter hfilter
  have havailable := check_ok.mp ((forM_ok filters).mp hchecks.1 filter hfilter)
  rw [Bool.or_eq_true, decide_eq_true_eq] at havailable
  exact ⟨havailable, check_ok.mp ((forM_ok filters).mp hchecks.2.1 filter hfilter)⟩

theorem create_arguments_allowed (h : checkCreateArgumentsValidity model wrapper = .ok ()) :
    ∀ argument ∈ wrapper.argumentsList,
      allowed model (model.getAclsForArgumentInCreation argument) = true := by
  rw [checkCreateArgumentsValidity, seq_ok, seq_ok] at h
  intro argument hargument
  exact check_ok.mp ((forM_ok wrapper.argumentsList).mp h.2.2 argument hargument)

theorem nested_queries_allowed (h : checkNestedQueriesValidity model wrapper = .ok ()) :
    ∀ nestedQuery ∈ wrapper.nestedQueriesList,
      allowed model (model.getAclsForNestedQueryInUpdate nestedQuery) = true := by
  intro nestedQuery hmem
  have hchecks := (forM_ok wrapper.nestedQueriesList).mp h nestedQuery hmem
  rw [seq_ok, check_ok, check_ok] at hchecks
  exact hchecks.2

theorem order_allowed (h : checkOrderByValidity model wrapper = .ok ()) :
    ∀ criterium ∈ wrapper.orderCriteria.getD [],
      allowed model (model.getAclsForOrderCriterium criterium) = true := by
  rw [checkOrderByValidity, seq_ok, seq_ok] at h
  intro criterium hcriterium
  exact check_ok.mp ((forM_ok (wrapper.orderCriteria.getD [])).mp h.2.2 criterium hcriterium)

/-- What the checks of a request ask the administrator for. -/
structure Checked (model : Model) (wrapper : JsonWrapper) : Prop where
  fields : ∀ name ∈ wrapper.fields, allowed model (model.getAclsForField name) = true
  filters : ∃ names, wrapper.filterNameList = .ok names ∧
    ∀ name ∈ names, FilterChecked model name
  createArguments : model.typeOfAction.creates = true → ∀ name ∈ wrapper.argumentsList,
    allowed model (model.getAclsForArgumentInCreation name) = true
  nestedQueries : model.typeOfAction = .update → ∀ name ∈ wrapper.nestedQueriesList,
    allowed model (model.getAclsForNestedQueryInUpdate name) = true
  order : ∀ name ∈ wrapper.orderCriteria.getD [],
    allowed model (model.getAclsForOrderCriterium name) = true

theorem checked_of_checkRequest (h : checkRequest model wrapper = .ok ()) :
    Checked model wrapper := by
  simp only [checkRequest, seq_ok, checkWhen_ok] at h
  obtain ⟨hfields, hfilters, _, hcreate, hnested, horder⟩ := h
  refine ⟨fields_allowed hfields, filters_checked hfilters, ?_, ?_, order_allowed horder⟩
  · exact fun hcreates => create_arguments_allowed (hcreate hcreates)
  · intro hupdate
    exact nested_queries_allowed (hnested (by simp [hupdate]))

theorem checked_of_processQuery {acls : List AclRe} {query : Query} {request : Request}
    (hwrapper : newJson query = .ok wrapper)
    (h : processQuery model acls query = .ok request) : Checked model wrapper := by
  rw [processQuery, hwrapper] at h
  have hnew := (seq_ok.mp h).2
  rw [newRequest, seq_ok] at hnew
  exact checked_of_checkRequest hnew.1

/-- The filters of a wrapper are those of the query, a level below the root operator. -/
theorem filtersObj_eq {query : Query} (hwrapper : newJson query = .ok wrapper) :
    ∃ items, normalizeFilter (query.filters.getD (.hash [])) = .ok items ∧
      WellFormed items ∧ wrapper.filtersObj = .group rootOp items .nil := by
  simp only [newJson, bind_ok, pure_ok] at hwrapper
  obtain ⟨_, _, filtersObj, hnew, heq⟩ := hwrapper
  rw [newFilter] at hnew
  split at hnew
  · cases hnew
  · next items hitems =>
    refine ⟨items, hitems, wellFormed_normalize _ items hitems, ?_⟩
    rw [← heq]
    exact (Except.ok.inj hnew).symm

theorem plain_filter_checked {query : Query} (hwrapper : newJson query = .ok wrapper)
    (hchecked : Checked model wrapper) (name : Text) (hname : name ∈ leafKeys wrapper.filtersObj)
    (hplain : Plain name) : FilterChecked model name := by
  obtain ⟨items, _, hitems, hobj⟩ := filtersObj_eq hwrapper
  obtain ⟨names, hnames, hall⟩ := hchecked.filters
  simp only [JsonWrapper.filterNameList, bind_ok, pure_ok] at hnames
  obtain ⟨paths, hpaths, hmap⟩ := hnames
  rw [hobj] at hname hpaths
  apply hall name
  rw [← hmap]
  apply plain_key_mem_names rootOp items .nil hitems paths hpaths name _ hplain
  simpa [leafKeys] using hname

end Spec

variable (model : Model) (acls : List AclRe) (query : Query) (wrapper : JsonWrapper)
  (request : Request)

/-- The listed ACLs of an executed request are all held exactly when those are that its
checks do not ask for. -/
theorem enforced_iff (hwrapper : newJson query = .ok wrapper)
    (h : processQuery model acls query = .ok request) :
    Enforced model wrapper ↔ UncheckedAllowed model wrapper := by
  have hchecked := checked_of_processQuery hwrapper h
  constructor
  · intro henforced
    refine ⟨?_, ?_, ?_, ?_⟩
    · intro htype name hname
      have hlisted := henforced (.argument name) hname
      simpa only [listedAcls, argumentAcls, htype] using hlisted
    · intro hcreates name hname
      have hlisted := henforced (.nestedQuery name) hname
      cases htype : model.typeOfAction <;> simp [TypeOfAction.creates, htype] at hcreates <;>
        simpa only [listedAcls, nestedQueryAcls, htype] using hlisted
    · intro name hname hproperty
      have hlisted := henforced (.field name) hname
      simpa only [listedAcls, filterAclKey, hproperty, if_true] using hlisted
    · intro name hname _
      exact henforced (.filter name) hname
  · intro hunchecked element hcontains
    cases element with
    | filter name =>
      by_cases hplain : Plain name
      · exact (plain_filter_checked hwrapper hchecked name hcontains hplain).2
      · exact hunchecked.splitFilters name hcontains hplain
    | field name =>
      by_cases hproperty : model.hasProperty name = true
      · simp only [listedAcls, filterAclKey, if_pos hproperty]
        exact hunchecked.propertyFields name hcontains hproperty
      · simp only [listedAcls, filterAclKey, if_neg hproperty]
        exact hchecked.fields name hcontains
    | orderCriterium name => exact hchecked.order name hcontains
    | argument name =>
      simp only [listedAcls, argumentAcls]
      split
      · next htype => exact hunchecked.updateArguments htype name hcontains
      · next htype => exact hchecked.createArguments (by rw [htype]; rfl) name hcontains
      · next htype => exact hchecked.createArguments (by rw [htype]; rfl) name hcontains
      · rfl
    | nestedQuery name =>
      simp only [listedAcls, nestedQueryAcls]
      split
      · next htype => exact hchecked.nestedQueries htype name hcontains
      · next htype => exact hunchecked.nestedQueries (by rw [htype]; rfl) name hcontains
      · next htype => exact hunchecked.nestedQueries (by rw [htype]; rfl) name hcontains
      · rfl

section Rename

/-- An administrator who may describe virtual machines, and nothing else. -/
def describer : Administrator where
  id := 5
  tenantId := 3
  acls := ["vm.update.description".toList]
  scope := [3]

def vmUpdate (administrator : Administrator) : Model where
  administrator
  qvdObject := "VM"
  typeOfAction := .update
  properties := []
  multitenant := true
  computeDefault := fun _ _ => .ok none
  computeValue := fun _ value => value

def vmUpdateAcls : List AclRe :=
  [startsWith "vm.update."]

def changing (argument : String) : Query where
  filters := some (.hash [("id".toList, .scalar ['1'])])
  arguments := [(argument.toList, .scalar ['x'])]
  fields := []
  orderDirection := none
  orderCriteria := none

theorem argumentsList_changing (argument : String) (wrapper : JsonWrapper)
    (hplain : isNestedQuery argument.toList = false)
    (h : newJson (changing argument) = .ok wrapper) :
    argument.toList ∈ wrapper.argumentsList := by
  simp only [newJson, bind_ok, pure_ok] at h
  obtain ⟨_, _, _, _, heq⟩ := h
  rw [← heq]
  simp [changing, JsonWrapper.argumentsList, hplain]

/-- The ACL of a name is `vm.update.name`; the request to change one is executed without. -/
theorem rename_not_enforced :
    ∃ wrapper request, newJson (changing "name") = .ok wrapper ∧
      processQuery (vmUpdate describer) vmUpdateAcls (changing "name") = .ok request ∧
      ¬ Enforced (vmUpdate describer) wrapper := by
  obtain ⟨wrapper, hwrapper⟩ : ∃ wrapper, newJson (changing "name") = .ok wrapper :=
    exists_ok (by decide)
  obtain ⟨request, hrequest⟩ : ∃ request,
      processQuery (vmUpdate describer) vmUpdateAcls (changing "name") = .ok request :=
    exists_ok (by decide +kernel)
  refine ⟨wrapper, request, hwrapper, hrequest, ?_⟩
  intro henforced
  have hname := henforced (.argument "name".toList)
    (argumentsList_changing "name" wrapper (by decide) hwrapper)
  revert hname
  decide

/-- With the description instead, the request is executed by right. -/
theorem enforced_iff_describe :
    ∃ wrapper request, newJson (changing "description") = .ok wrapper ∧
      processQuery (vmUpdate describer) vmUpdateAcls (changing "description") = .ok request ∧
      (Enforced (vmUpdate describer) wrapper ↔
        UncheckedAllowed (vmUpdate describer) wrapper) := by
  obtain ⟨wrapper, hwrapper⟩ : ∃ wrapper, newJson (changing "description") = .ok wrapper :=
    exists_ok (by decide)
  obtain ⟨request, hrequest⟩ : ∃ request,
      processQuery (vmUpdate describer) vmUpdateAcls (changing "description") = .ok request :=
    exists_ok (by decide +kernel)
  exact ⟨wrapper, request, hwrapper, hrequest,
    enforced_iff (vmUpdate describer) vmUpdateAcls (changing "description") wrapper request
      hwrapper hrequest⟩

end Rename

end Qvd.ElementAcls
