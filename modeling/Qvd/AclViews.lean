import Mathlib.Order.Bounds.Defs
import Qvd.RoleGraph

/-!
The views over the acls of roles: the recursive view all_acl_role_relations, and the acls
that are operative in a role and in an administrator, up to the patterns on their names.
-/
namespace Qvd.AclViews

open RecursiveQuery RoleGraph

abbrev AclId := ℕ
abbrev AdminId := ℕ

structure Acl where
  id : AclId
  name : String
  description : Option String
deriving DecidableEq, Repr

structure Role where
  id : RoleId
  name : String
deriving DecidableEq, Repr

/-- A row of acl_role_relations; a negative one inhibits the acl in the role. -/
structure AclRoleRelation where
  roleId : RoleId
  aclId : AclId
  positive : Bool
deriving DecidableEq, Repr

structure RoleAdministratorRelation where
  roleId : RoleId
  administratorId : AdminId
deriving DecidableEq, Repr

/-- The tables of the views, with their unique keys and their foreign keys. -/
structure Database where
  acls : List Acl
  roles : List Role
  administrators : List AdminId
  roleRoleRelations : List RoleRoleRelation
  aclRoleRelations : List AclRoleRelation
  roleAdministratorRelations : List RoleAdministratorRelation
  acls_ids : (acls.map Acl.id).Nodup
  acls_names : (acls.map Acl.name).Nodup
  roles_ids : (roles.map Role.id).Nodup
  aclRole_unique : (aclRoleRelations.map (fun row => (row.roleId, row.aclId))).Nodup
  roleRole_roles : ∀ row ∈ roleRoleRelations,
    row.inheritorId ∈ roles.map Role.id ∧ row.inheritedId ∈ roles.map Role.id
  aclRole_acls : ∀ row ∈ aclRoleRelations,
    row.roleId ∈ roles.map Role.id ∧ row.aclId ∈ acls.map Acl.id
  roleAdministrator_roles : ∀ row ∈ roleAdministratorRelations,
    row.roleId ∈ roles.map Role.id ∧ row.administratorId ∈ administrators
deriving DecidableEq

/-- A row of the view all_acl_role_relations. -/
structure AllAclRoleRelation where
  inheritorId : RoleId
  inheritedId : RoleId
  aclId : AclId
deriving DecidableEq, Repr

section Recursive

variable (db : Database)

/-- The acls of the sub-select: those with a negative row in the role. -/
def negativeAcls (role : RoleId) : List AclId :=
  (db.aclRoleRelations.filter (fun c => !c.positive && c.roleId = role)).map
    AclRoleRelation.aclId

def allAclRoleRelations : Query AllAclRoleRelation where
  base := db.roleRoleRelations.flatMap (fun a =>
    (db.aclRoleRelations.filter (fun b => b.roleId = a.inheritedId && b.positive &&
      b.aclId ∉ negativeAcls db a.inheritorId)).map
      (fun b => { inheritorId := a.inheritorId, inheritedId := a.inheritedId, aclId := b.aclId }))
  recursive e :=
    (db.roleRoleRelations.filter (fun d => d.inheritedId = e.inheritorId &&
      e.aclId ∉ negativeAcls db d.inheritorId)).map
      (fun d => { inheritorId := d.inheritorId, inheritedId := d.inheritedId, aclId := e.aclId })

/-- Every row the recursive query can have. -/
def possibleRows : List AllAclRoleRelation :=
  db.roleRoleRelations.flatMap (fun a => db.aclRoleRelations.map
    (fun b => { inheritorId := a.inheritorId, inheritedId := a.inheritedId, aclId := b.aclId }))

def allAclRoleRelationView : List AllAclRoleRelation :=
  ((allAclRoleRelations db).answer (possibleRows db) ++
    (db.aclRoleRelations.filter AclRoleRelation.positive).map
      (fun row => AllAclRoleRelation.mk row.roleId row.roleId row.aclId)).dedup

/-- The acls the view holds for a role. -/
def effective : Set (RoleId × AclId) :=
  {p | ∃ row ∈ allAclRoleRelationView db, row.inheritorId = p.1 ∧ row.aclId = p.2}

end Recursive

section Meaning

variable (db : Database)

def PositiveRow (role : RoleId) (acl : AclId) : Prop :=
  { roleId := role, aclId := acl, positive := true } ∈ db.aclRoleRelations

def NegativeRow (role : RoleId) (acl : AclId) : Prop :=
  { roleId := role, aclId := acl, positive := false } ∈ db.aclRoleRelations

/-- The rules of inheritance: a role has the acls of its positive rows, and those of the
roles it inherits that it has no negative row for. -/
def Rules (E : Set (RoleId × AclId)) : Prop :=
  ∀ role acl, PositiveRow db role acl ∨ (¬ NegativeRow db role acl ∧
    ∃ parent, Inherits db.roleRoleRelations role parent ∧ (parent, acl) ∈ E) → (role, acl) ∈ E

variable {db}

theorem mem_negativeAcls {role : RoleId} {acl : AclId} :
    acl ∈ negativeAcls db role ↔ NegativeRow db role acl := by
  unfold negativeAcls NegativeRow
  simp only [List.mem_map, List.mem_filter]
  constructor
  · rintro ⟨⟨r, a, positive⟩, ⟨hrow, hcond⟩, rfl⟩
    simp only [Bool.and_eq_true, Bool.not_eq_true', decide_eq_true_eq] at hcond
    obtain ⟨rfl, rfl⟩ := hcond
    exact hrow
  · intro h
    exact ⟨_, ⟨h, by simp⟩, rfl⟩

theorem mem_base {row : AllAclRoleRelation} :
    row ∈ (allAclRoleRelations db).base ↔
      Inherits db.roleRoleRelations row.inheritorId row.inheritedId ∧
      PositiveRow db row.inheritedId row.aclId ∧
      ¬ NegativeRow db row.inheritorId row.aclId := by
  simp only [allAclRoleRelations, List.mem_flatMap, List.mem_map, List.mem_filter,
    Bool.and_eq_true, decide_eq_true_eq, mem_negativeAcls]
  constructor
  · rintro ⟨⟨x, y⟩, hrel, ⟨r, a, positive⟩, ⟨hrow, ⟨rfl, rfl⟩, hneg⟩, rfl⟩
    exact ⟨hrel, hrow, hneg⟩
  · rintro ⟨hrel, hrow, hneg⟩
    exact ⟨_, hrel, _, ⟨hrow, ⟨rfl, rfl⟩, hneg⟩, rfl⟩

theorem mem_recursive {row e : AllAclRoleRelation} :
    row ∈ (allAclRoleRelations db).recursive e ↔
      Inherits db.roleRoleRelations row.inheritorId row.inheritedId ∧
      row.inheritedId = e.inheritorId ∧ row.aclId = e.aclId ∧
      ¬ NegativeRow db row.inheritorId row.aclId := by
  simp only [allAclRoleRelations, List.mem_map, List.mem_filter, Bool.and_eq_true,
    decide_eq_true_eq, mem_negativeAcls]
  constructor
  · rintro ⟨⟨x, y⟩, ⟨hrel, rfl, hneg⟩, rfl⟩
    exact ⟨hrel, rfl, rfl, hneg⟩
  · rintro ⟨hrel, hsame, hacl, hneg⟩
    rw [hacl] at hneg
    refine ⟨_, ⟨hrel, hsame, hneg⟩, ?_⟩
    rw [← hacl]

theorem derivable_possible {row : AllAclRoleRelation}
    (h : (allAclRoleRelations db).Derivable row) : row ∈ possibleRows db := by
  simp only [possibleRows, List.mem_flatMap, List.mem_map]
  induction h with
  | base h =>
    obtain ⟨hrel, hrow, -⟩ := mem_base.mp h
    exact ⟨_, hrel, _, hrow, rfl⟩
  | @step e row _ h ih =>
    obtain ⟨hrel, -, hacl, -⟩ := mem_recursive.mp h
    obtain ⟨_, _, b, hb, rfl⟩ := ih
    exact ⟨_, hrel, b, hb, congrArg (AllAclRoleRelation.mk _ _) hacl.symm⟩

theorem mem_view {row : AllAclRoleRelation} :
    row ∈ allAclRoleRelationView db ↔ (allAclRoleRelations db).Derivable row ∨
      (row.inheritedId = row.inheritorId ∧ PositiveRow db row.inheritorId row.aclId) := by
  rw [allAclRoleRelationView, List.mem_dedup, List.mem_append,
    Query.mem_answer_iff _ _ fun _ => derivable_possible]
  apply or_congr_right
  simp only [List.mem_map, List.mem_filter]
  constructor
  · rintro ⟨⟨r, a, positive⟩, ⟨hrow, rfl⟩, rfl⟩
    exact ⟨rfl, hrow⟩
  · rintro ⟨hsame, hrow⟩
    exact ⟨_, ⟨hrow, rfl⟩, congrArg (fun r => AllAclRoleRelation.mk _ r _) hsame.symm⟩

/-- The acls of the view keep the rules. -/
theorem rules_effective (db : Database) : Rules db (effective db) := by
  rintro role acl (hpositive | ⟨hneg, parent, hrel, heff⟩)
  · exact ⟨⟨role, role, acl⟩, mem_view.mpr (Or.inr ⟨rfl, hpositive⟩), rfl, rfl⟩
  · obtain ⟨row, hrow, rfl, rfl⟩ := heff
    refine ⟨⟨role, row.inheritorId, row.aclId⟩, mem_view.mpr (Or.inl ?_), rfl, rfl⟩
    rcases mem_view.mp hrow with hderivable | ⟨-, hpositive⟩
    · exact hderivable.step (mem_recursive.mpr ⟨hrel, rfl, rfl, hneg⟩)
    · exact .base (mem_base.mpr ⟨hrel, hpositive, hneg⟩)

theorem mem_of_derivable {E : Set (RoleId × AclId)} (hE : Rules db E) {row : AllAclRoleRelation}
    (h : (allAclRoleRelations db).Derivable row) : (row.inheritorId, row.aclId) ∈ E := by
  induction h with
  | base h =>
    obtain ⟨hrel, hpositive, hneg⟩ := mem_base.mp h
    exact hE _ _ (Or.inr ⟨hneg, _, hrel, hE _ _ (Or.inl hpositive)⟩)
  | step _ h ih =>
    obtain ⟨hrel, hsame, hacl, hneg⟩ := mem_recursive.mp h
    rw [← hsame, ← hacl] at ih
    exact hE _ _ (Or.inr ⟨hneg, _, hrel, ih⟩)

/-- The view computes the least set that keeps the rules, whatever the graph. -/
theorem isLeast_effective (db : Database) : IsLeast {E | Rules db E} (effective db) := by
  refine ⟨rules_effective db, ?_⟩
  rintro E hE ⟨role, acl⟩ ⟨row, hrow, rfl, rfl⟩
  rcases mem_view.mp hrow with hderivable | ⟨-, hpositive⟩
  · exact mem_of_derivable hE hderivable
  · exact hE _ _ (Or.inl hpositive)

/-- What is effective is so by a row of its own or by a role that is inherited. -/
theorem effective_iff {role : RoleId} {acl : AclId} :
    (role, acl) ∈ effective db ↔ PositiveRow db role acl ∨ (¬ NegativeRow db role acl ∧
      ∃ parent, Inherits db.roleRoleRelations role parent ∧ (parent, acl) ∈ effective db) := by
  constructor
  · rintro ⟨row, hrow, rfl, rfl⟩
    rcases mem_view.mp hrow with hderivable | ⟨-, hpositive⟩
    · cases hderivable with
      | base h =>
        obtain ⟨hrel, hpositive, hneg⟩ := mem_base.mp h
        exact Or.inr ⟨hneg, _, hrel, rules_effective db _ _ (Or.inl hpositive)⟩
      | step he h =>
        obtain ⟨hrel, hsame, hacl, hneg⟩ := mem_recursive.mp h
        have hparent := mem_of_derivable (rules_effective db) he
        rw [← hsame, ← hacl] at hparent
        exact Or.inr ⟨hneg, _, hrel, hparent⟩
    · exact Or.inl hpositive
  · exact rules_effective db role acl

/-- A role has one row for an acl at most. -/
theorem not_negative_of_positive {role : RoleId} {acl : AclId} (h : PositiveRow db role acl) :
    ¬ NegativeRow db role acl := by
  intro hneg
  have heq := List.inj_on_of_nodup_map db.aclRole_unique h hneg rfl
  cases heq

end Meaning

/-- The regular expressions a view is bound with, as predicates on the names of acls: those
that are never operative, always operative for an administrator, and hidden. -/
structure Patterns where
  closed : String → Bool
  opened : String → Bool
  hidden : String → Bool

section Sql

/-- The disjunction of SQL, where NULL stands for an unknown truth value. -/
def sqlOr : Option Bool → Option Bool → Option Bool
  | some true, _ => some true
  | _, some true => some true
  | some false, some false => some false
  | _, _ => none

/-- CASE takes its first branch when the condition is true, and not when it is NULL. -/
def caseWhen {β : Type} (condition : Option Bool) (first second : β) : β :=
  if condition = some true then first else second

theorem sqlOr_eq_true {p q : Option Bool} :
    sqlOr p q = some true ↔ p = some true ∨ q = some true := by
  rcases p with _ | (_ | _)
  · rcases q with _ | (_ | _) <;> simp [sqlOr]
  · rcases q with _ | (_ | _) <;> simp [sqlOr]
  · simp [sqlOr]

/-- LEFT JOIN keeps a row without partner. -/
def leftJoin {β : Type} (partners : List β) : List (Option β) :=
  match partners with
  | [] => [none]
  | _ => partners.map some

theorem mem_leftJoin {β : Type} {partners : List β} {o : Option β} :
    o ∈ leftJoin partners ↔ (∃ b ∈ partners, o = some b) ∨ (partners = [] ∧ o = none) := by
  cases partners with
  | nil => simp [leftJoin]
  | cons b rest =>
    simp only [leftJoin, List.mem_map, reduceCtorEq, false_and, or_false]
    constructor
    · rintro ⟨b, hb, rfl⟩
      exact ⟨b, hb, rfl⟩
    · rintro ⟨b, hb, rfl⟩
      exact ⟨b, hb, rfl⟩

/-- GROUP BY, with the rows of each group. -/
def groupBy {β γ : Type} [DecidableEq γ] (key : β → γ) (rows : List β) : List (γ × List β) :=
  (rows.map key).dedup.map (fun k => (k, rows.filter (fun row => key row = k)))

theorem mem_groupBy {β γ : Type} [DecidableEq γ] {key : β → γ} {rows : List β} {k : γ} :
    (∃ group, (k, group) ∈ groupBy key rows) ↔ ∃ row ∈ rows, key row = k := by
  simp only [groupBy, List.mem_map, List.mem_dedup, Prod.mk.injEq]
  constructor
  · rintro ⟨_, k', ⟨row, hrow, rfl⟩, rfl, -⟩
    exact ⟨row, hrow, rfl⟩
  · rintro ⟨row, hrow, rfl⟩
    exact ⟨_, key row, ⟨row, hrow, rfl⟩, rfl, rfl⟩

end Sql

section OperativeInRole

variable (db : Database) (patterns : Patterns)

/-- The rows of the view with the acl for a role that the given one inherits directly. -/
def inheritedRows (role : RoleId) (acl : AclId) : List (AllAclRoleRelation × Role) :=
  ((allAclRoleRelationView db).filter (fun j => j.aclId = acl)).flatMap (fun j =>
    (db.roles.filter (fun r => r.id = j.inheritorId)).flatMap (fun r =>
      (db.roleRoleRelations.filter (fun i => i.inheritedId = r.id && i.inheritorId = role)).map
        (fun _ => (j, r))))

/-- A row before the grouping: an acl, a role, the row of an inherited role and the role's
own row, when there are such. -/
structure RoleJoin where
  acl : Acl
  role : RoleId
  inherited : Option (AllAclRoleRelation × Role)
  own : Option AclRoleRelation
deriving DecidableEq

def roleJoins : List RoleJoin :=
  (db.acls.filter (fun a => !patterns.hidden a.name)).flatMap (fun a =>
    db.roles.flatMap (fun rr =>
      (leftJoin (inheritedRows db rr.id a.id)).flatMap (fun j =>
        (leftJoin (db.aclRoleRelations.filter (fun jj => a.id = jj.aclId && rr.id = jj.roleId))).map
          (fun jj => { acl := a, role := rr.id, inherited := j, own := jj }))))

/-- The columns the view is grouped by. -/
structure RoleKey where
  acl : Acl
  role : RoleId
  inheritedAcl : Option AclId
  ownAcl : Option AclId
  ownPositive : Option Bool
deriving DecidableEq

def RoleJoin.key (row : RoleJoin) : RoleKey where
  acl := row.acl
  role := row.role
  inheritedAcl := row.inherited.map (fun j => j.1.aclId)
  ownAcl := row.own.map AclRoleRelation.aclId
  ownPositive := row.own.map AclRoleRelation.positive

structure OperativeAclInRole where
  operative : Bool
  roleId : RoleId
  aclId : AclId
  aclDescription : Option String
  roles : List (Option Role)
  aclName : String
deriving DecidableEq

def RoleKey.operative (k : RoleKey) : Bool :=
  caseWhen (sqlOr (sqlOr (some (patterns.closed k.acl.name))
      (some (k.inheritedAcl.isNone && k.ownAcl.isNone)))
    (k.ownPositive.map (fun positive => positive = false))) false true

def operativeAclsInRole : List OperativeAclInRole :=
  (groupBy RoleJoin.key (roleJoins db patterns)).map (fun g =>
    { operative := g.1.operative patterns, roleId := g.1.role, aclId := g.1.acl.id
      aclDescription := g.1.acl.description
      roles := g.2.map (fun row => row.inherited.map Prod.snd), aclName := g.1.acl.name })

/-- The acl is operative in the role. -/
def OperativeInRole (role : RoleId) (acl : AclId) : Prop :=
  ∃ row ∈ operativeAclsInRole db patterns,
    row.roleId = role ∧ row.aclId = acl ∧ row.operative = true

variable {db : Database} {patterns : Patterns}

theorem mem_inheritedRows {role : RoleId} {acl : AclId} {p : AllAclRoleRelation × Role} :
    p ∈ inheritedRows db role acl ↔ p.1 ∈ allAclRoleRelationView db ∧ p.1.aclId = acl ∧
      p.2 ∈ db.roles ∧ p.2.id = p.1.inheritorId ∧
      Inherits db.roleRoleRelations role p.1.inheritorId := by
  simp only [inheritedRows, List.mem_flatMap, List.mem_filter, List.mem_map,
    decide_eq_true_eq, Bool.and_eq_true]
  constructor
  · rintro ⟨j, ⟨hj, hacl⟩, r, ⟨hr, hid⟩, ⟨x, y⟩, ⟨hi, rfl, rfl⟩, rfl⟩
    exact ⟨hj, hacl, hr, hid, hid ▸ hi⟩
  · rintro ⟨hj, hacl, hr, hid, hi⟩
    exact ⟨p.1, ⟨hj, hacl⟩, p.2, ⟨hr, hid⟩, _, ⟨hi, hid.symm, rfl⟩, rfl⟩

/-- An inherited row stands for a parent that has the acl. -/
theorem exists_inheritedRow {role : RoleId} {acl : AclId} :
    (∃ p, p ∈ inheritedRows db role acl) ↔
      ∃ parent, Inherits db.roleRoleRelations role parent ∧ (parent, acl) ∈ effective db := by
  constructor
  · rintro ⟨p, hp⟩
    obtain ⟨hj, hacl, -, -, hi⟩ := mem_inheritedRows.mp hp
    exact ⟨p.1.inheritorId, hi, p.1, hj, rfl, hacl⟩
  · rintro ⟨parent, hi, j, hj, rfl, hacl⟩
    obtain ⟨r, hr, hid⟩ := List.mem_map.mp (db.roleRole_roles _ hi).2
    exact ⟨(j, r), mem_inheritedRows.mpr ⟨hj, hacl, hr, hid, hi⟩⟩

theorem operative_key {k : RoleKey} :
    k.operative patterns = true ↔ patterns.closed k.acl.name = false ∧
      ¬ (k.inheritedAcl = none ∧ k.ownAcl = none) ∧ k.ownPositive ≠ some false := by
  unfold RoleKey.operative caseWhen
  have hpositive : k.ownPositive.map (fun positive => decide (positive = false)) = some true ↔
      k.ownPositive = some false := by
    rcases k.ownPositive with _ | (_ | _) <;> simp
  simp only [sqlOr_eq_true, hpositive, Option.some.injEq, Bool.and_eq_true, Option.isNone_iff_eq_none,
    ite_eq_right_iff, imp_false, Bool.false_eq_true]
  rw [not_or, not_or, Bool.not_eq_true, and_assoc]

theorem mem_roleJoins {row : RoleJoin} :
    row ∈ roleJoins db patterns ↔ (row.acl ∈ db.acls ∧ patterns.hidden row.acl.name = false) ∧
      row.role ∈ db.roles.map Role.id ∧
      row.inherited ∈ leftJoin (inheritedRows db row.role row.acl.id) ∧
      row.own ∈ leftJoin (db.aclRoleRelations.filter
        (fun jj => row.acl.id = jj.aclId && row.role = jj.roleId)) := by
  simp only [roleJoins, List.mem_flatMap, List.mem_map, List.mem_filter, Bool.not_eq_true']
  constructor
  · rintro ⟨a, ha, rr, hrr, j, hj, jj, hjj, rfl⟩
    exact ⟨ha, ⟨rr, hrr, rfl⟩, hj, hjj⟩
  · rintro ⟨ha, ⟨rr, hrr, hid⟩, hj, hjj⟩
    rw [← hid] at hj hjj
    exact ⟨row.acl, ha, rr, hrr, row.inherited, hj, row.own, hjj, by rw [hid]⟩

/-- A row of the view is there for every group, so for every joined row. -/
theorem operativeInRole_joins {role : RoleId} {acl : AclId} :
    OperativeInRole db patterns role acl ↔ ∃ row ∈ roleJoins db patterns,
      row.role = role ∧ row.acl.id = acl ∧ row.key.operative patterns = true := by
  unfold OperativeInRole operativeAclsInRole
  simp only [List.mem_map]
  constructor
  · rintro ⟨_, ⟨⟨k, rows⟩, hgroup, rfl⟩, rfl, rfl, hoperative⟩
    obtain ⟨row, hrow, rfl⟩ := mem_groupBy.mp ⟨rows, hgroup⟩
    exact ⟨row, hrow, rfl, rfl, hoperative⟩
  · rintro ⟨row, hrow, rfl, rfl, hoperative⟩
    obtain ⟨rows, hgroup⟩ : ∃ rows, (row.key, rows) ∈ groupBy RoleJoin.key
        (roleJoins db patterns) := mem_groupBy.mpr ⟨row, hrow, rfl⟩
    exact ⟨_, ⟨_, hgroup, rfl⟩, rfl, rfl, hoperative⟩

theorem exists_mem_leftJoin {β : Type} (partners : List β) : ∃ o, o ∈ leftJoin partners := by
  cases partners with
  | nil => exact ⟨none, List.mem_singleton_self none⟩
  | cons b rest => exact ⟨some b, List.mem_cons_self⟩

theorem mem_ownRows {role : RoleId} {acl : AclId} {row : AclRoleRelation} :
    row ∈ db.aclRoleRelations.filter (fun jj => acl = jj.aclId && role = jj.roleId) ↔
      row = ⟨role, acl, row.positive⟩ ∧ row ∈ db.aclRoleRelations := by
  simp only [List.mem_filter, Bool.and_eq_true, decide_eq_true_eq]
  constructor
  · rintro ⟨hrow, rfl, rfl⟩
    exact ⟨rfl, hrow⟩
  · rintro ⟨hshape, hrow⟩
    rw [hshape]
    exact ⟨hshape ▸ hrow, rfl, rfl⟩

/-- An acl is operative in a role when it is effective in it and no pattern takes it away. -/
theorem operativeInRole_iff {role : RoleId} {acl : AclId} :
    OperativeInRole db patterns role acl ↔ role ∈ db.roles.map Role.id ∧
      (∃ a ∈ db.acls, a.id = acl ∧ patterns.hidden a.name = false ∧
        patterns.closed a.name = false) ∧ (role, acl) ∈ effective db := by
  rw [operativeInRole_joins]
  constructor
  · rintro ⟨⟨a, rr, j, jj⟩, hrow, rfl, rfl, hoperative⟩
    obtain ⟨⟨ha, hhidden⟩, hrole, hj, hjj⟩ := mem_roleJoins.mp hrow
    obtain ⟨hclosed, hsome, hpositive⟩ := operative_key.mp hoperative
    refine ⟨hrole, ⟨a, ha, rfl, hhidden, hclosed⟩, ?_⟩
    rcases mem_leftJoin.mp hjj with ⟨row, hown, rfl⟩ | ⟨hnone, rfl⟩
    · obtain ⟨hshape, hmem⟩ := mem_ownRows.mp hown
      have htrue : row.positive = true := by
        rcases hcase : row.positive with _ | _
        · exact absurd (congrArg some hcase) hpositive
        · rfl
      rw [hshape, htrue] at hmem
      exact rules_effective db _ _ (Or.inl hmem)
    · rcases mem_leftJoin.mp hj with ⟨p, hp, rfl⟩ | ⟨-, rfl⟩
      · refine rules_effective db _ _ (Or.inr ⟨?_, exists_inheritedRow.mp ⟨p, hp⟩⟩)
        intro hneg
        have hmem := mem_ownRows.mpr ⟨rfl, hneg⟩
        rw [hnone] at hmem
        cases hmem
      · exact absurd ⟨rfl, rfl⟩ hsome
  · rintro ⟨hrole, ⟨a, ha, rfl, hhidden, hclosed⟩, heffective⟩
    have hown : ∀ own ∈ leftJoin (db.aclRoleRelations.filter
          (fun jj => a.id = jj.aclId && role = jj.roleId)),
        own.map AclRoleRelation.positive ≠ some false ∧
          (PositiveRow db role a.id → own ≠ none) := by
      intro own hmem
      rcases mem_leftJoin.mp hmem with ⟨row, hrow, rfl⟩ | ⟨hnone, rfl⟩
      · refine ⟨?_, by simp⟩
        obtain ⟨hshape, hrow⟩ := mem_ownRows.mp hrow
        intro hfalse
        rw [hshape, Option.some.inj hfalse] at hrow
        rcases effective_iff.mp heffective with hpositive | ⟨hneg, -⟩
        · exact not_negative_of_positive hpositive hrow
        · exact hneg hrow
      · refine ⟨by simp, ?_⟩
        intro hpositive
        have hmem := mem_ownRows.mpr ⟨rfl, hpositive⟩
        rw [hnone] at hmem
        cases hmem
    obtain ⟨own, hjj⟩ := exists_mem_leftJoin (db.aclRoleRelations.filter
      (fun jj => a.id = jj.aclId && role = jj.roleId))
    obtain ⟨hpositive, hsome⟩ := hown own hjj
    rcases effective_iff.mp heffective with hrow | ⟨-, hparent⟩
    · obtain ⟨inherited, hj⟩ := exists_mem_leftJoin (inheritedRows db role a.id)
      refine ⟨⟨a, role, inherited, own⟩, mem_roleJoins.mpr ⟨⟨ha, hhidden⟩, hrole, hj, hjj⟩, rfl,
        rfl, operative_key.mpr ⟨hclosed, ?_, hpositive⟩⟩
      rintro ⟨-, hnone⟩
      exact hsome hrow (Option.map_eq_none_iff.mp hnone)
    · obtain ⟨p, hp⟩ := exists_inheritedRow.mpr hparent
      refine ⟨⟨a, role, some p, own⟩, mem_roleJoins.mpr ⟨⟨ha, hhidden⟩, hrole,
        mem_leftJoin.mpr (Or.inl ⟨p, hp, rfl⟩), hjj⟩, rfl, rfl,
        operative_key.mpr ⟨hclosed, ?_, hpositive⟩⟩
      rintro ⟨hnone, -⟩
      cases hnone

end OperativeInRole

section OperativeInAdministrator

variable (db : Database) (patterns : Patterns)

/-- The rows of the view with the acl for a role the administrator is assigned. -/
def assignedRows (admin : AdminId) (acl : AclId) : List (AllAclRoleRelation × Role) :=
  ((allAclRoleRelationView db).filter (fun j => j.aclId = acl)).flatMap (fun j =>
    (db.roles.filter (fun r => r.id = j.inheritorId)).flatMap (fun r =>
      (db.roleAdministratorRelations.filter
        (fun i => i.roleId = r.id && i.administratorId = admin)).map (fun _ => (j, r))))

structure AdministratorJoin where
  acl : Acl
  admin : AdminId
  assigned : Option (AllAclRoleRelation × Role)
deriving DecidableEq

def administratorJoins : List AdministratorJoin :=
  (db.acls.filter (fun a => !patterns.hidden a.name)).flatMap (fun a =>
    db.administrators.flatMap (fun ad =>
      (leftJoin (assignedRows db ad a.id)).map (fun j => { acl := a, admin := ad, assigned := j })))

structure AdministratorKey where
  acl : Acl
  admin : AdminId
  assignedAcl : Option AclId
  inheritorId : Option RoleId
deriving DecidableEq

def AdministratorJoin.key (row : AdministratorJoin) : AdministratorKey where
  acl := row.acl
  admin := row.admin
  assignedAcl := row.assigned.map (fun j => j.1.aclId)
  inheritorId := row.assigned.map (fun j => j.1.inheritorId)

structure OperativeAclInAdministrator where
  operative : Bool
  adminId : AdminId
  roleId : Option RoleId
  aclId : AclId
  aclDescription : Option String
  roles : List (Option Role)
  aclName : String
deriving DecidableEq

def AdministratorKey.operative (k : AdministratorKey) : Bool :=
  caseWhen (some (patterns.closed k.acl.name)) false
    (caseWhen (some (patterns.opened k.acl.name)) true
      (caseWhen (some k.assignedAcl.isNone) false true))

def operativeAclsInAdministrator : List OperativeAclInAdministrator :=
  (groupBy AdministratorJoin.key (administratorJoins db patterns)).map (fun g =>
    { operative := g.1.operative patterns, adminId := g.1.admin, roleId := g.1.inheritorId
      aclId := g.1.acl.id, aclDescription := g.1.acl.description
      roles := g.2.map (fun row => row.assigned.map Prod.snd), aclName := g.1.acl.name })

/-- The acl is operative for the administrator. -/
def OperativeInAdministrator (admin : AdminId) (acl : AclId) : Prop :=
  ∃ row ∈ operativeAclsInAdministrator db patterns,
    row.adminId = admin ∧ row.aclId = acl ∧ row.operative = true

/-- The role is assigned to the administrator. -/
def Assigned (admin : AdminId) (role : RoleId) : Prop :=
  { roleId := role, administratorId := admin } ∈ db.roleAdministratorRelations

variable {db : Database} {patterns : Patterns}

theorem mem_assignedRows {admin : AdminId} {acl : AclId} {p : AllAclRoleRelation × Role} :
    p ∈ assignedRows db admin acl ↔ p.1 ∈ allAclRoleRelationView db ∧ p.1.aclId = acl ∧
      p.2 ∈ db.roles ∧ p.2.id = p.1.inheritorId ∧ Assigned db admin p.1.inheritorId := by
  simp only [assignedRows, List.mem_flatMap, List.mem_filter, List.mem_map,
    decide_eq_true_eq, Bool.and_eq_true]
  constructor
  · rintro ⟨j, ⟨hj, hacl⟩, r, ⟨hr, hid⟩, ⟨x, y⟩, ⟨hi, rfl, rfl⟩, rfl⟩
    exact ⟨hj, hacl, hr, hid, hid ▸ hi⟩
  · rintro ⟨hj, hacl, hr, hid, hi⟩
    exact ⟨p.1, ⟨hj, hacl⟩, p.2, ⟨hr, hid⟩, _, ⟨hi, hid.symm, rfl⟩, rfl⟩

theorem exists_assignedRow {admin : AdminId} {acl : AclId} :
    (∃ p, p ∈ assignedRows db admin acl) ↔
      ∃ role, Assigned db admin role ∧ (role, acl) ∈ effective db := by
  constructor
  · rintro ⟨p, hp⟩
    obtain ⟨hj, hacl, -, -, hi⟩ := mem_assignedRows.mp hp
    exact ⟨p.1.inheritorId, hi, p.1, hj, rfl, hacl⟩
  · rintro ⟨role, hi, j, hj, rfl, hacl⟩
    obtain ⟨r, hr, hid⟩ := List.mem_map.mp (db.roleAdministrator_roles _ hi).1
    exact ⟨(j, r), mem_assignedRows.mpr ⟨hj, hacl, hr, hid, hi⟩⟩

theorem operative_administratorKey {k : AdministratorKey} :
    k.operative patterns = true ↔ patterns.closed k.acl.name = false ∧
      (patterns.opened k.acl.name = true ∨ k.assignedAcl ≠ none) := by
  unfold AdministratorKey.operative caseWhen
  cases patterns.closed k.acl.name <;> cases patterns.opened k.acl.name <;>
    cases k.assignedAcl <;> simp

theorem mem_administratorJoins {row : AdministratorJoin} :
    row ∈ administratorJoins db patterns ↔
      (row.acl ∈ db.acls ∧ patterns.hidden row.acl.name = false) ∧
        row.admin ∈ db.administrators ∧
        row.assigned ∈ leftJoin (assignedRows db row.admin row.acl.id) := by
  simp only [administratorJoins, List.mem_flatMap, List.mem_map, List.mem_filter,
    Bool.not_eq_true']
  constructor
  · rintro ⟨a, ha, ad, had, j, hj, rfl⟩
    exact ⟨ha, had, hj⟩
  · rintro ⟨ha, had, hj⟩
    exact ⟨row.acl, ha, row.admin, had, row.assigned, hj, rfl⟩

theorem operativeInAdministrator_joins {admin : AdminId} {acl : AclId} :
    OperativeInAdministrator db patterns admin acl ↔
      ∃ row ∈ administratorJoins db patterns, row.admin = admin ∧ row.acl.id = acl ∧
        row.key.operative patterns = true := by
  unfold OperativeInAdministrator operativeAclsInAdministrator
  simp only [List.mem_map]
  constructor
  · rintro ⟨_, ⟨⟨k, rows⟩, hgroup, rfl⟩, rfl, rfl, hoperative⟩
    obtain ⟨row, hrow, rfl⟩ := mem_groupBy.mp ⟨rows, hgroup⟩
    exact ⟨row, hrow, rfl, rfl, hoperative⟩
  · rintro ⟨row, hrow, rfl, rfl, hoperative⟩
    obtain ⟨rows, hgroup⟩ : ∃ rows, (row.key, rows) ∈ groupBy AdministratorJoin.key
        (administratorJoins db patterns) := mem_groupBy.mpr ⟨row, hrow, rfl⟩
    exact ⟨_, ⟨_, hgroup, rfl⟩, rfl, rfl, hoperative⟩

/-- An acl is operative for an administrator when no pattern takes it away and it is
effective in an assigned role or given to every administrator by a pattern. -/
theorem operativeInAdministrator_iff {admin : AdminId} {acl : AclId} :
    OperativeInAdministrator db patterns admin acl ↔ admin ∈ db.administrators ∧
      ∃ a ∈ db.acls, a.id = acl ∧ patterns.hidden a.name = false ∧
        patterns.closed a.name = false ∧ (patterns.opened a.name = true ∨
          ∃ role, Assigned db admin role ∧ (role, acl) ∈ effective db) := by
  rw [operativeInAdministrator_joins]
  constructor
  · rintro ⟨⟨a, ad, j⟩, hrow, rfl, rfl, hoperative⟩
    obtain ⟨⟨ha, hhidden⟩, hadmin, hj⟩ := mem_administratorJoins.mp hrow
    obtain ⟨hclosed, hopened⟩ := operative_administratorKey.mp hoperative
    refine ⟨hadmin, a, ha, rfl, hhidden, hclosed, ?_⟩
    rcases mem_leftJoin.mp hj with ⟨p, hp, rfl⟩ | ⟨-, rfl⟩
    · exact Or.inr (exists_assignedRow.mp ⟨p, hp⟩)
    · exact Or.inl (hopened.resolve_right fun hnone => hnone rfl)
  · rintro ⟨hadmin, a, ha, rfl, hhidden, hclosed, hopened | hassigned⟩
    · obtain ⟨j, hj⟩ := exists_mem_leftJoin (assignedRows db admin a.id)
      exact ⟨⟨a, admin, j⟩, mem_administratorJoins.mpr ⟨⟨ha, hhidden⟩, hadmin, hj⟩, rfl, rfl,
        operative_administratorKey.mpr ⟨hclosed, Or.inl hopened⟩⟩
    · obtain ⟨p, hp⟩ := exists_assignedRow.mpr hassigned
      exact ⟨⟨a, admin, some p⟩, mem_administratorJoins.mpr ⟨⟨ha, hhidden⟩, hadmin,
        mem_leftJoin.mpr (Or.inl ⟨p, hp, rfl⟩)⟩, rfl, rfl,
        operative_administratorKey.mpr ⟨hclosed, Or.inr (by rintro ⟨⟩)⟩⟩

/-- The recursive view holds the least set that keeps the rules; and with the same patterns
an acl is operative for an administrator exactly when it is operative in an assigned role or
its name is one of those always operative, and neither closed nor hidden. -/
theorem views_agree (db : Database) (patterns : Patterns) (admin : AdminId) (acl : AclId) :
    IsLeast {E | Rules db E} (effective db) ∧
    (OperativeInAdministrator db patterns admin acl ↔
      (∃ role, Assigned db admin role ∧ OperativeInRole db patterns role acl) ∨
      (admin ∈ db.administrators ∧ ∃ a ∈ db.acls, a.id = acl ∧ patterns.opened a.name = true ∧
        patterns.closed a.name = false ∧ patterns.hidden a.name = false)) := by
  refine ⟨isLeast_effective db, ?_⟩
  rw [operativeInAdministrator_iff]
  constructor
  · rintro ⟨hadmin, a, ha, hid, hhidden, hclosed, hopened | ⟨role, hassigned, heffective⟩⟩
    · exact Or.inr ⟨hadmin, a, ha, hid, hopened, hclosed, hhidden⟩
    · refine Or.inl ⟨role, hassigned, operativeInRole_iff.mpr ⟨?_, ?_, heffective⟩⟩
      · exact (db.roleAdministrator_roles _ hassigned).1
      · exact ⟨a, ha, hid, hhidden, hclosed⟩
  · rintro (⟨role, hassigned, hoperative⟩ | ⟨hadmin, a, ha, hid, hopened, hclosed, hhidden⟩)
    · obtain ⟨-, ⟨a, ha, hid, hhidden, hclosed⟩, heffective⟩ := operativeInRole_iff.mp hoperative
      exact ⟨(db.roleAdministrator_roles _ hassigned).2, a, ha, hid, hhidden, hclosed,
        Or.inr ⟨role, hassigned, heffective⟩⟩
    · exact ⟨hadmin, a, ha, hid, hhidden, hclosed, Or.inl hopened⟩

/-- One acl and an administrator without roles. -/
def noRoles : Database where
  acls := [{ id := 1, name := "config.wat.", description := none }]
  roles := []
  administrators := [1]
  roleRoleRelations := []
  aclRoleRelations := []
  roleAdministratorRelations := []
  acls_ids := by simp
  acls_names := by simp
  roles_ids := by simp
  aclRole_unique := by simp
  roleRole_roles := by simp
  aclRole_acls := by simp
  roleAdministrator_roles := by simp

/-- An acl that a pattern opens is operative for an administrator without any role. -/
theorem opened_without_role : ∃ patterns : Patterns,
    OperativeInAdministrator noRoles patterns 1 1 ∧
      ¬ ∃ role, Assigned noRoles 1 role ∧ OperativeInRole noRoles patterns role 1 := by
  refine ⟨⟨fun _ => false, fun name => name = "config.wat.", fun _ => false⟩, ?_, ?_⟩
  · exact ⟨⟨true, 1, none, 1, none, [none], "config.wat."⟩, by decide, rfl, rfl, rfl⟩
  · rintro ⟨role, hassigned, -⟩
    cases hassigned

end OperativeInAdministrator

end Qvd.AclViews
