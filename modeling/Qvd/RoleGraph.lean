import Qvd.AcyclicRelation
import Qvd.RecursiveQuery
import Qvd.Runs

/-!
Inheritance between roles: the recursive view over role_role_relations, the check
that assignment makes with it, and the graphs that sequences of calls can reach.
-/
namespace Qvd.RoleGraph

open Relation Runs RecursiveQuery AcyclicRelation

abbrev RoleId := ℕ

/-- A row of role_role_relations; the pair is unique in the table. -/
structure RoleRoleRelation where
  inheritorId : RoleId
  inheritedId : RoleId
deriving DecidableEq, Repr

/-- The recursive query of the view all_role_role_relations. -/
def allRoleRoleRelations (relations : List RoleRoleRelation) : Query RoleRoleRelation where
  base := relations
  recursive pr :=
    -- the term selects p.inherited_id, the column it joins on, and not pr.inherited_id
    (relations.filter (fun p => p.inheritedId = pr.inheritorId)).map
      (fun p => { inheritorId := p.inheritorId, inheritedId := p.inheritedId })

/-- The rows of the view, SELECT DISTINCT over the recursive query. -/
def allInheritedRolesInRole (relations : List RoleRoleRelation) : List RoleRoleRelation :=
  ((allRoleRoleRelations relations).answer relations).dedup

/-- The inherited ids of the view's rows for one inheritor, as the keys of a hash. -/
def getAllInheritedRoleIds (relations : List RoleRoleRelation) (id : RoleId) : List RoleId :=
  (((allInheritedRolesInRole relations).filter (fun row => row.inheritorId = id)).map
    (fun row => row.inheritedId)).dedup

/-- An exception of the API, by its numeric code. -/
structure ApiException where
  code : ℕ
deriving DecidableEq, Repr

structure Database where
  roles : List RoleId
  roleRoleRelations : List RoleRoleRelation
deriving DecidableEq, Repr

def assignRoleToRole (db : Database) (inheritorRole inheritedRoleId : RoleId) :
    Except ApiException Database :=
  if inheritedRoleId ∉ db.roles then
    .error ⟨6370⟩
  else if inheritorRole ∈
      inheritedRoleId :: getAllInheritedRoleIds db.roleRoleRelations inheritedRoleId then
    .error ⟨7350⟩
  else if { inheritorId := inheritorRole, inheritedId := inheritedRoleId }
      ∈ db.roleRoleRelations then
    -- the unique constraint of the table
    .error ⟨7230⟩
  else
    .ok { db with roleRoleRelations := db.roleRoleRelations ++
      [{ inheritorId := inheritorRole, inheritedId := inheritedRoleId }] }

def unassignRoleToRole (db : Database) (role : RoleId) (roleIds : List RoleId) :
    Except ApiException Database :=
  let deleted (row : RoleRoleRelation) : Bool :=
    row.inheritorId = role && row.inheritedId ∈ roleIds
  .ok { db with
    roleRoleRelations := db.roleRoleRelations.filter (fun row => !deleted row) }

inductive Call
  | assign (inheritorRole inheritedRoleId : RoleId)
  | unassign (role : RoleId) (roleIds : List RoleId)
deriving DecidableEq, Repr

def call (db : Database) : Call → Except ApiException Database
  | .assign inheritorRole inheritedRoleId => assignRoleToRole db inheritorRole inheritedRoleId
  | .unassign role roleIds => unassignRoleToRole db role roleIds

/-- Successful calls from an empty inheritance graph over any roles. -/
def callSystem : System Database Call where
  init db := db.roleRoleRelations = []
  step db c db' := call db c = .ok db'

/-- One inheritance edge. -/
def Inherits (relations : List RoleRoleRelation) (a b : RoleId) : Prop :=
  { inheritorId := a, inheritedId := b } ∈ relations

instance (relations : List RoleRoleRelation) (a b : RoleId) :
    Decidable (Inherits relations a b) := by
  unfold Inherits
  infer_instance

def NoCycle (db : Database) : Prop :=
  Acyclic (Inherits db.roleRoleRelations)

/-- If a chain of two or more edges leads from the inherited role to the inheritor,
the inheritor is also the inherited role itself or directly inherited by it. -/
def NoHiddenWayBack (db : Database) (inheritorRole inheritedRoleId : RoleId) : Prop :=
  LongPath (Inherits db.roleRoleRelations) inheritedRoleId inheritorRole →
    inheritedRoleId = inheritorRole ∨
      Inherits db.roleRoleRelations inheritedRoleId inheritorRole

/-- The condition on a call: an assignment has no hidden way back. -/
def CallOk (db : Database) : Call → Prop
  | .assign inheritorRole inheritedRoleId => NoHiddenWayBack db inheritorRole inheritedRoleId
  | .unassign _ _ => True

section View

variable (relations : List RoleRoleRelation)

/-- The recursive term only yields rows of the table again. -/
theorem derivable_iff (row : RoleRoleRelation) :
    (allRoleRoleRelations relations).Derivable row ↔ row ∈ relations := by
  constructor
  · intro h
    induction h with
    | base h => exact h
    | step _ h _ =>
      obtain ⟨p, hp, rfl⟩ := List.mem_map.mp h
      exact (List.mem_filter.mp hp).1
  · intro h
    exact Query.Derivable.base h

/-- The view holds the direct relations and no others. -/
theorem mem_view_iff (row : RoleRoleRelation) :
    row ∈ allInheritedRolesInRole relations ↔ row ∈ relations := by
  have hrows : ∀ x, (allRoleRoleRelations relations).Derivable x → x ∈ relations :=
    fun x => (derivable_iff relations x).mp
  rw [allInheritedRolesInRole, List.mem_dedup, Query.mem_answer_iff _ _ hrows]
  exact derivable_iff relations row

theorem mem_getAllInheritedRoleIds_iff (a b : RoleId) :
    b ∈ getAllInheritedRoleIds relations a ↔ Inherits relations a b := by
  simp only [getAllInheritedRoleIds, List.mem_dedup, List.mem_map, List.mem_filter,
    mem_view_iff, decide_eq_true_eq]
  constructor
  · rintro ⟨⟨x, y⟩, ⟨hrow, rfl⟩, rfl⟩
    exact hrow
  · intro h
    exact ⟨⟨a, b⟩, ⟨h, rfl⟩, rfl⟩

/-- The ids miss no reachable role exactly when what the role inherits directly is
closed under inheritance. -/
theorem ids_complete_iff (a : RoleId) :
    (∀ t, TransGen (Inherits relations) a t → t ∈ getAllInheritedRoleIds relations a) ↔
      ∀ m t, Inherits relations a m → Inherits relations m t → Inherits relations a t := by
  constructor
  · intro h m t ham hmt
    have hat : TransGen (Inherits relations) a t := TransGen.tail (TransGen.single ham) hmt
    exact (mem_getAllInheritedRoleIds_iff relations a t).mp (h t hat)
  · intro h t hat
    exact (mem_getAllInheritedRoleIds_iff relations a t).mpr
      ((transGen_iff_of_closed h t).mp hat)

end View

section Assignment

/-- The check refuses the role itself and the roles at distance one. -/
theorem assign_refused_iff (db : Database) (a b : RoleId) (hb : b ∈ db.roles) :
    assignRoleToRole db a b = .error ⟨7350⟩ ↔
      b = a ∨ Inherits db.roleRoleRelations b a := by
  rw [← mem_getAllInheritedRoleIds_iff]
  unfold assignRoleToRole
  rw [if_neg (not_not.mpr hb)]
  by_cases h : a ∈ b :: getAllInheritedRoleIds db.roleRoleRelations b
  · rw [if_pos h]
    rcases List.mem_cons.mp h with h | h
    · simp [h]
    · simp [h]
  · rw [if_neg h]
    rw [List.mem_cons, not_or] at h
    have hdup : ApiException.mk 7230 ≠ ⟨7350⟩ := by decide
    constructor
    · intro heq
      split at heq
      · exact absurd (Except.error.inj heq) hdup
      · exact absurd heq (by simp)
    · rintro (heq | hmem)
      · exact absurd heq.symm h.1
      · exact absurd hmem h.2

/-- What an accepted assignment does, and what its checks have established. -/
theorem assign_ok {db db' : Database} {a b : RoleId} (h : assignRoleToRole db a b = .ok db') :
    b ≠ a ∧ ¬ Inherits db.roleRoleRelations b a ∧
      db' = { db with roleRoleRelations := db.roleRoleRelations ++ [⟨a, b⟩] } := by
  have hb : b ∈ db.roles := by
    by_contra hb
    simp [assignRoleToRole, hb] at h
  have hcheck : ¬ (b = a ∨ Inherits db.roleRoleRelations b a) := by
    rw [← assign_refused_iff db a b hb, h]
    simp
  rw [not_or] at hcheck
  refine ⟨hcheck.1, hcheck.2, ?_⟩
  unfold assignRoleToRole at h
  split at h
  · cases h
  · split at h
    · cases h
    · split at h
      · cases h
      · exact (Except.ok.inj h).symm

/-- An accepted assignment adds one edge. -/
theorem inherits_assign {db db' : Database} {a b : RoleId}
    (h : assignRoleToRole db a b = .ok db') :
    Inherits db'.roleRoleRelations = extend (Inherits db.roleRoleRelations) a b := by
  obtain ⟨-, -, rfl⟩ := assign_ok h
  funext x y
  simp [Inherits, extend]

/-- The check is exact where there is no hidden way back. -/
theorem refused_iff_cycle_iff (db : Database) (a b : RoleId) (hb : b ∈ db.roles) :
    (assignRoleToRole db a b = .error ⟨7350⟩ ↔
        ReflTransGen (Inherits db.roleRoleRelations) b a) ↔ NoHiddenWayBack db a b := by
  rw [assign_refused_iff db a b hb, reflTransGen_iff_longPath, NoHiddenWayBack]
  tauto

/-- An accepted assignment keeps the graph acyclic exactly when it has no hidden way back. -/
theorem noCycle_assign_iff {db db' : Database} {a b : RoleId} (hdb : NoCycle db)
    (h : assignRoleToRole db a b = .ok db') : NoCycle db' ↔ NoHiddenWayBack db a b := by
  obtain ⟨hne, hdirect, -⟩ := assign_ok h
  rw [NoCycle, inherits_assign h, acyclic_extend_iff hdb, reflTransGen_iff_longPath,
    NoHiddenWayBack]
  tauto

theorem noCycle_unassign {db db' : Database} {role : RoleId} {roleIds : List RoleId}
    (hdb : NoCycle db) (h : unassignRoleToRole db role roleIds = .ok db') : NoCycle db' := by
  obtain rfl := Except.ok.inj h
  apply hdb.mono
  intro x y hxy
  exact (List.mem_filter.mp hxy).1

end Assignment

section Runs

theorem noCycle_empty (db : Database) (h : db.roleRoleRelations = []) : NoCycle db := by
  apply acyclic_of_empty
  intro x y hxy
  simp [Inherits, h] at hxy

/-- One successful call keeps the graph acyclic exactly when it meets the condition. -/
theorem noCycle_step_iff (db : Database) (c : Call) (db' : Database) (hdb : NoCycle db)
    (h : callSystem.step db c db') : NoCycle db' ↔ CallOk db c := by
  cases c with
  | assign a b => exact noCycle_assign_iff hdb h
  | unassign role roleIds =>
    have hkept : NoCycle db' := noCycle_unassign hdb h
    simp [CallOk, hkept]

/-- A run stays acyclic exactly when no assignment in it has a hidden way back. In any
graph the ids are complete exactly for roles whose direct relations are closed, and the
check is exact for exactly the pairs without a hidden way back. -/
theorem acyclic_iff_no_hidden_way_back (past : List (Database × Call)) (db graph : Database)
    (run : callSystem.Run past db) (a b : RoleId) :
    (Always NoCycle past db ↔ AllSteps CallOk past) ∧
    ((∀ t, TransGen (Inherits graph.roleRoleRelations) a t →
        t ∈ getAllInheritedRoleIds graph.roleRoleRelations a) ↔
      ∀ m t, Inherits graph.roleRoleRelations a m → Inherits graph.roleRoleRelations m t →
        Inherits graph.roleRoleRelations a t) ∧
    (b ∈ graph.roles →
      ((assignRoleToRole graph a b = .error ⟨7350⟩ ↔
        ReflTransGen (Inherits graph.roleRoleRelations) b a) ↔ NoHiddenWayBack graph a b)) := by
  refine ⟨?_, ids_complete_iff graph.roleRoleRelations a, refused_iff_cycle_iff graph a b⟩
  exact run.always_iff_allSteps noCycle_empty noCycle_step_iff

end Runs

section ThreeRoles

/-- Three roles and the first of them inheriting along a chain. -/
def threeRoles (relations : List RoleRoleRelation) : Database where
  roles := [1, 2, 3]
  roleRoleRelations := relations

theorem chain_run : callSystem.Run
    [(threeRoles [⟨1, 2⟩], .assign 2 3), (threeRoles [], .assign 1 2)]
    (threeRoles [⟨1, 2⟩, ⟨2, 3⟩]) := by
  have h0 : callSystem.Run [] (threeRoles []) := System.Run.start rfl
  have h1 : callSystem.Run [(threeRoles [], .assign 1 2)] (threeRoles [⟨1, 2⟩]) :=
    h0.extend (by show call _ _ = _; decide)
  exact h1.extend (by show call _ _ = _; decide)

theorem chain_allSteps : AllSteps CallOk
    [(threeRoles [⟨1, 2⟩], Call.assign 2 3), (threeRoles [], Call.assign 1 2)] := by
  simp only [AllSteps, List.forall_mem_cons, CallOk, NoHiddenWayBack, LongPath, threeRoles,
    Inherits]
  refine ⟨?_, ?_, by simp⟩
  · rintro ⟨m, hm, -⟩
    simp at hm
  · rintro ⟨m, hm, -⟩
    simp at hm

theorem acyclic_along_chain :
    Always NoCycle
        [(threeRoles [⟨1, 2⟩], Call.assign 2 3), (threeRoles [], Call.assign 1 2)]
        (threeRoles [⟨1, 2⟩, ⟨2, 3⟩]) ∧
      (assignRoleToRole (threeRoles [⟨1, 2⟩]) 2 1 = .error ⟨7350⟩ ↔
        ReflTransGen (Inherits (threeRoles [⟨1, 2⟩]).roleRoleRelations) 1 2) := by
  have h := acyclic_iff_no_hidden_way_back _ _ (threeRoles [⟨1, 2⟩]) chain_run 2 1
  refine ⟨h.1.mpr chain_allSteps, ?_⟩
  refine (h.2.2 (by decide)).mpr ?_
  intro _
  right
  decide

/-- Three accepted assignments close a cycle, and the ids of the first role miss it. -/
theorem three_roles_cycle : ∃ past db, callSystem.Run past db ∧
    TransGen (Inherits db.roleRoleRelations) 1 1 ∧
    1 ∉ getAllInheritedRoleIds db.roleRoleRelations 1 := by
  have h3 : callSystem.step (threeRoles [⟨1, 2⟩, ⟨2, 3⟩]) (.assign 3 1)
      (threeRoles [⟨1, 2⟩, ⟨2, 3⟩, ⟨3, 1⟩]) := by
    show call _ _ = _
    decide
  refine ⟨_, _, chain_run.extend h3, ?_, by decide⟩
  have h12 : Inherits (threeRoles [⟨1, 2⟩, ⟨2, 3⟩, ⟨3, 1⟩]).roleRoleRelations 1 2 := by decide
  have h23 : Inherits (threeRoles [⟨1, 2⟩, ⟨2, 3⟩, ⟨3, 1⟩]).roleRoleRelations 2 3 := by decide
  have h31 : Inherits (threeRoles [⟨1, 2⟩, ⟨2, 3⟩, ⟨3, 1⟩]).roleRoleRelations 3 1 := by decide
  exact ((TransGen.single h12).tail h23).tail h31

end ThreeRoles

end Qvd.RoleGraph
