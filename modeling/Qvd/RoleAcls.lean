import Qvd.AclViews
import Qvd.Checks

/-!
The edition of the acls of a role. Each call splits its cases on what the views hold when
the role is first asked about its acls, while its own loop changes the rows.
-/
namespace Qvd.RoleAcls

open Relation AcyclicRelation AclViews Checks
open RoleGraph (RoleId RoleRoleRelation Inherits ApiException getAllInheritedRoleIds)

/-- The patterns the model of a role binds its view with. -/
def plain : Patterns where
  closed name := name = ""
  opened _ := false
  hidden name := name = ""

structure AclsInfo where
  allInheritedRoleIds : List RoleId
  operativeAcls : List String
  inheritedAcls : List String
  ownPositiveAcls : List String
  ownNegativeAcls : List String
deriving DecidableEq, Repr

def inheritedRoleIds (db : Database) (role : RoleId) : List RoleId :=
  (db.roleRoleRelations.filter (fun row => row.inheritorId = role)).map
    RoleRoleRelation.inheritedId

/-- The acls of the role and of those it inherits directly, by what the view holds now. -/
def reloadAclsInfo (db : Database) (role : RoleId) : AclsInfo :=
  let acls := (operativeAclsInRole db plain).filter
    (fun row => row.roleId ∈ role :: inheritedRoleIds db role && row.operative)
  let operative := (acls.filter (fun row => row.roleId = role)).map OperativeAclInRole.aclName
  let inherited := (acls.filter (fun row => row.roleId ≠ role)).map OperativeAclInRole.aclName
  { allInheritedRoleIds := getAllInheritedRoleIds db.roleRoleRelations role
    operativeAcls := operative
    inheritedAcls := inherited
    ownPositiveAcls := operative.filter (fun name => name ∉ inherited)
    ownNegativeAcls := inherited.filter (fun name => name ∉ operative) }

/-- The object of a role; it keeps what it has found about its acls. -/
structure RoleObject where
  id : RoleId
  aclsInfo : Option AclsInfo
deriving DecidableEq, Repr

/-- What the object answers with when it is asked for the first time on these tables. -/
def RoleObject.info (object : RoleObject) (db : Database) : AclsInfo :=
  object.aclsInfo.getD (reloadAclsInfo db object.id)

section Rows

variable (db : Database)

/-- The foreign keys and the unique key of a new row. -/
def Insertable (row : AclRoleRelation) : Prop :=
  row.roleId ∈ db.roles.map Role.id ∧ row.aclId ∈ db.acls.map Acl.id ∧
    (row.roleId, row.aclId) ∉ db.aclRoleRelations.map (fun row => (row.roleId, row.aclId))

instance (row : AclRoleRelation) : Decidable (Insertable db row) := by
  unfold Insertable
  infer_instance

def insertRow (row : AclRoleRelation) (h : Insertable db row) : Database :=
  { db with
    aclRoleRelations := db.aclRoleRelations ++ [row]
    aclRole_unique := by
      rw [List.map_append, List.nodup_append]
      refine ⟨db.aclRole_unique, List.nodup_singleton _, ?_⟩
      intro pair hpair other hother heq
      rw [List.map_singleton, List.mem_singleton] at hother
      rw [heq, hother] at hpair
      exact h.2.2 hpair
    aclRole_acls := by
      intro other hother
      rcases List.mem_append.mp hother with hother | hother
      · exact db.aclRole_acls other hother
      · obtain rfl := List.mem_singleton.mp hother
        exact ⟨h.1, h.2.1⟩ }

def deleteRows (role : RoleId) (acl : AclId) : Database :=
  { db with
    aclRoleRelations :=
      db.aclRoleRelations.filter (fun row => !(row.roleId = role && row.aclId = acl))
    aclRole_unique := db.aclRole_unique.sublist (List.filter_sublist.map _)
    aclRole_acls := fun row hrow => db.aclRole_acls row (List.mem_filter.mp hrow).1 }

def deleteRoleRow (role inherited : RoleId) : Database :=
  { db with
    roleRoleRelations := db.roleRoleRelations.filter
      (fun row => !(row.inheritorId = role && row.inheritedId = inherited))
    roleRole_roles := fun row hrow => db.roleRole_roles row (List.mem_filter.mp hrow).1 }

/-- An empty name is looked for as NULL, which no acl has. -/
def findAcl (name : String) : Option Acl :=
  if name = "" then none else db.acls.find? (fun acl => acl.name = name)

def assignAclToRole (role : RoleId) (name : String) (positive : Bool) :
    Except ApiException Database :=
  match findAcl db name with
  | none => .error ⟨6360⟩
  | some acl =>
    if h : Insertable db ⟨role, acl.id, positive⟩ then .ok (insertRow db _ h)
    else if (role, acl.id) ∈ db.aclRoleRelations.map (fun row => (row.roleId, row.aclId)) then
      .error ⟨7220⟩
    else .error ⟨7100⟩

def unassignAclToRole (role : RoleId) (name : String) : Except ApiException Database :=
  match findAcl db name with
  | none => .error ⟨6360⟩
  | some acl => .ok (deleteRows db role acl.id)

end Rows

section Calls

/-- The match of a string of digits, which may be followed by a line feed. -/
def isId (given : String) : Bool :=
  let chars := given.toList
  let chars := if chars.getLast? = some '\n' then chars.dropLast else chars
  chars ≠ [] && chars.all Char.isDigit

def idOf (given : String) : ℕ :=
  (given.toList.filter Char.isDigit).foldl (fun n c => 10 * n + (c.toNat - '0'.toNat)) 0

/-- Ids and names may not be mixed. -/
def asIds (given : List String) : Except ApiException Bool :=
  if given.any isId && given.any (fun s => !isId s) then .error ⟨6360⟩
  else .ok (given.any isId)

def aclNames (db : Database) (given : List String) : Except ApiException (List String) := do
  if ← asIds given then
    return (db.acls.filter (fun acl => acl.id ∈ given.map idOf)).map Acl.name
  else return given

def roleIds (db : Database) (given : List String) : Except ApiException (List RoleId) := do
  if ← asIds given then return given.map idOf
  else return (db.roles.filter (fun role => role.name ∈ given)).map Role.id

def addAclToRole (info : AclsInfo) (role : RoleId) (db : Database) (name : String) :
    Except ApiException Database :=
  if name ∈ info.operativeAcls then .ok db
  else if name ∈ info.ownNegativeAcls then unassignAclToRole db role name
  else assignAclToRole db role name true

def addAclsToRole (db : Database) (object : RoleObject) (given : List String) :
    Except ApiException Database := do
  let names ← aclNames db given
  names.foldlM (addAclToRole (object.info db) object.id) db

def delAclToRole (info : AclsInfo) (role : RoleId) (db : Database) (name : String) :
    Except ApiException Database :=
  if name ∉ info.operativeAcls then .ok db
  else do
    let db ← if name ∈ info.ownPositiveAcls then unassignAclToRole db role name else .ok db
    if name ∈ info.inheritedAcls then assignAclToRole db role name false else .ok db

def delAclsToRole (db : Database) (object : RoleObject) (given : List String) :
    Except ApiException Database := do
  let names ← aclNames db given
  names.foldlM (delAclToRole (object.info db) object.id) db

/-- The roles are unassigned first, and the negative rows are looked at then. -/
def delRolesToRole (db : Database) (object : RoleObject) (given : List String) :
    Except ApiException Database := do
  let ids ← roleIds db given
  let db := ids.foldl (fun db id => deleteRoleRow db object.id id) db
  let info := object.info db
  info.ownNegativeAcls.foldlM (fun db name =>
    if name ∈ info.inheritedAcls then .ok db else unassignAclToRole db object.id name) db

end Calls

section Specification

/-- The acl is operative in the role, by the view as the model of a role binds it. -/
def Operative (db : Database) (role : RoleId) (acl : Acl) : Prop :=
  OperativeInRole db plain role acl.id

/-- A role that is inherited directly makes the acl operative. -/
def InheritedFrom (db : Database) (role : RoleId) (acl : Acl) : Prop :=
  ∃ parent, Inherits db.roleRoleRelations role parent ∧ Operative db parent acl

/-- The list identifies these acls, which exist, by their names or by their ids. -/
structure Identifies (db : Database) (given : List String) (names : List String) : Prop where
  resolved : aclNames db given = .ok names
  exist : ∀ name ∈ names, ∃ acl ∈ db.acls, acl.name = name

/-- An edition succeeds, makes the listed acls operative or not, and leaves the others. -/
def Edits (db : Database) (role : RoleId) (names : List String) (operative : Bool)
    (result : Except ApiException Database) : Prop :=
  ∃ db', result = .ok db' ∧ ∀ acl ∈ db.acls,
    if acl.name ∈ names then (Operative db' role acl ↔ operative = true)
    else (Operative db' role acl ↔ Operative db role acl)

/-- The condition on an addition: an acl that is neither operative nor inherited has a name,
no negative row, and is listed once. -/
def AddOk (db : Database) (role : RoleId) (names : List String) : Prop :=
  ∀ acl ∈ db.acls, acl.name ∈ names → ¬ Operative db role acl → ¬ InheritedFrom db role acl →
    acl.name ≠ "" ∧ ¬ NegativeRow db role acl.id ∧ names.count acl.name = 1

/-- The condition on a removal: an acl that is both operative and inherited has no positive
row and is listed once. -/
def DelOk (db : Database) (role : RoleId) (names : List String) : Prop :=
  ∀ acl ∈ db.acls, acl.name ∈ names → Operative db role acl → InheritedFrom db role acl →
    ¬ PositiveRow db role acl.id ∧ names.count acl.name = 1

/-- No negative row is left for an acl that no inherited role makes operative. -/
def NoIdleNegative (db : Database) (role : RoleId) : Prop :=
  ∀ acl ∈ db.acls, NegativeRow db role acl.id → InheritedFrom db role acl

/-- The condition on the removal of roles: each negative row is for an acl that an inherited
role not among them makes operative. -/
def DelRolesOk (db : Database) (role : RoleId) (ids : List RoleId) : Prop :=
  ∀ acl ∈ db.acls, NegativeRow db role acl.id → ∃ parent, parent ∉ ids ∧
    Inherits db.roleRoleRelations role parent ∧ Operative db parent acl

end Specification

section OwnRows

/-- The row of a role for an acl, if it has one. -/
def ownRow (db : Database) (role : RoleId) (acl : AclId) : Option Bool :=
  (db.aclRoleRelations.find? (fun row => row.roleId = role && row.aclId = acl)).map
    AclRoleRelation.positive

variable {db : Database} {role : RoleId} {acl : AclId} {positive : Bool}

theorem ownRow_eq_some :
    ownRow db role acl = some positive ↔ ⟨role, acl, positive⟩ ∈ db.aclRoleRelations := by
  unfold ownRow
  rw [Option.map_eq_some_iff]
  constructor
  · rintro ⟨⟨r, a, b⟩, hfind, rfl⟩
    have hkey := List.find?_some hfind
    simp only [Bool.and_eq_true, decide_eq_true_eq] at hkey
    obtain ⟨rfl, rfl⟩ := hkey
    exact List.mem_of_find?_eq_some hfind
  · intro hmem
    cases hfind : db.aclRoleRelations.find?
        (fun row => row.roleId = role && row.aclId = acl) with
    | none =>
      have hnone := List.find?_eq_none.mp hfind _ hmem
      simp at hnone
    | some row =>
      have hkey := List.find?_some hfind
      simp only [Bool.and_eq_true, decide_eq_true_eq] at hkey
      have heq := List.inj_on_of_nodup_map db.aclRole_unique (List.mem_of_find?_eq_some hfind)
        hmem (Prod.ext hkey.1 hkey.2)
      exact ⟨row, rfl, by rw [heq]⟩

theorem positiveRow_iff : PositiveRow db role acl ↔ ownRow db role acl = some true :=
  ownRow_eq_some.symm

theorem negativeRow_iff : NegativeRow db role acl ↔ ownRow db role acl = some false :=
  ownRow_eq_some.symm

theorem ownRow_eq_none : ownRow db role acl = none ↔
    (role, acl) ∉ db.aclRoleRelations.map (fun row => (row.roleId, row.aclId)) := by
  rw [List.mem_map]
  constructor
  · rintro hnone ⟨row, hrow, heq⟩
    obtain ⟨rfl, rfl⟩ := Prod.mk.inj heq
    rw [ownRow_eq_some.mpr hrow] at hnone
    cases hnone
  · intro hnot
    cases hrow : ownRow db role acl with
    | none => rfl
    | some positive => exact absurd ⟨_, ownRow_eq_some.mp hrow, rfl⟩ hnot

theorem ownRow_insertRow {row : AclRoleRelation} (h : Insertable db row) :
    ownRow (insertRow db row h) role acl =
      if role = row.roleId ∧ acl = row.aclId then some row.positive else ownRow db role acl := by
  ext positive
  rw [ownRow_eq_some]
  have hmem : (⟨role, acl, positive⟩ : AclRoleRelation) ∈ (insertRow db row h).aclRoleRelations ↔
      ⟨role, acl, positive⟩ ∈ db.aclRoleRelations ∨ ⟨role, acl, positive⟩ = row := by
    rw [show (insertRow db row h).aclRoleRelations = db.aclRoleRelations ++ [row] from rfl]
    rw [List.mem_append, List.mem_singleton]
  rw [hmem]
  by_cases hkey : role = row.roleId ∧ acl = row.aclId
  · obtain ⟨rfl, rfl⟩ := hkey
    have hnone := ownRow_eq_none.mpr h.2.2
    rw [← ownRow_eq_some, hnone]
    rcases row with ⟨r, a, b⟩
    simp [eq_comm]
  · rw [if_neg hkey, ownRow_eq_some]
    constructor
    · rintro (hrow | rfl)
      · exact hrow
      · exact absurd ⟨rfl, rfl⟩ hkey
    · exact Or.inl

theorem ownRow_deleteRows {r : RoleId} {a : AclId} :
    ownRow (deleteRows db r a) role acl =
      if role = r ∧ acl = a then none else ownRow db role acl := by
  ext positive
  rw [ownRow_eq_some]
  have hmem : (⟨role, acl, positive⟩ : AclRoleRelation) ∈ (deleteRows db r a).aclRoleRelations ↔
      ⟨role, acl, positive⟩ ∈ db.aclRoleRelations ∧ ¬ (role = r ∧ acl = a) := by
    simp only [deleteRows, List.mem_filter, Bool.not_eq_true', Bool.and_eq_false_iff,
      decide_eq_false_iff_not, not_and_or]
  rw [hmem]
  by_cases hkey : role = r ∧ acl = a
  · simp [hkey]
  · simp [hkey, ownRow_eq_some]

end OwnRows

section Agreement

variable {db db' : Database} {role : RoleId}

/-- What is effective at a set of roles and acls that is closed under inheritance depends on
the rows of that set only. -/
theorem effective_of_agree (S : RoleId → AclId → Prop)
    (hclosed : ∀ r a parent, S r a → Inherits db.roleRoleRelations r parent → S parent a)
    (hrel : ∀ r a parent, S r a → Inherits db.roleRoleRelations r parent →
      Inherits db'.roleRoleRelations r parent)
    (hrow : ∀ r a, S r a → ownRow db' r a = ownRow db r a) {r : RoleId} {a : AclId}
    (hs : S r a) (h : (r, a) ∈ effective db) : (r, a) ∈ effective db' := by
  have hrules : Rules db {p | S p.1 p.2 → p ∈ effective db'} := by
    intro r a hcase hs
    apply rules_effective db'
    rcases hcase with hpositive | ⟨hneg, parent, hparent, heffective⟩
    · left
      rw [positiveRow_iff, hrow r a hs]
      exact positiveRow_iff.mp hpositive
    · right
      refine ⟨?_, parent, hrel r a parent hs hparent, heffective (hclosed r a parent hs hparent)⟩
      rw [negativeRow_iff, hrow r a hs]
      exact fun hfalse => hneg (negativeRow_iff.mpr hfalse)
  exact (isLeast_effective db).2 hrules h hs

/-- The tables differ in the acl rows of the role only. -/
structure SameBut (db db' : Database) (role : RoleId) : Prop where
  acls : db'.acls = db.acls
  roles : db'.roles = db.roles
  relations : db'.roleRoleRelations = db.roleRoleRelations
  rows : ∀ r a, r ≠ role → ownRow db' r a = ownRow db r a

theorem SameBut.refl (db : Database) (role : RoleId) : SameBut db db role :=
  ⟨rfl, rfl, rfl, fun _ _ _ => rfl⟩

theorem SameBut.symm (h : SameBut db db' role) : SameBut db' db role :=
  ⟨h.acls.symm, h.roles.symm, h.relations.symm, fun r a hr => (h.rows r a hr).symm⟩

theorem SameBut.trans {db₁ db₂ db₃ : Database} (h : SameBut db₁ db₂ role)
    (h' : SameBut db₂ db₃ role) : SameBut db₁ db₃ role :=
  ⟨h'.acls.trans h.acls, h'.roles.trans h.roles, h'.relations.trans h.relations,
    fun r a hr => (h'.rows r a hr).trans (h.rows r a hr)⟩

/-- A role that does not inherit the edited one keeps its acls. -/
theorem SameBut.effective_parent (h : SameBut db db' role) {parent : RoleId}
    (hparent : ¬ ReflTransGen (Inherits db.roleRoleRelations) parent role) {a : AclId}
    (heffective : (parent, a) ∈ effective db) : (parent, a) ∈ effective db' := by
  refine effective_of_agree
    (fun r _ => ¬ ReflTransGen (Inherits db.roleRoleRelations) r role) ?_ ?_ ?_ hparent heffective
  · exact fun r a p hr hp hreach => hr (hreach.head hp)
  · intro r a p _ hp
    rw [h.relations]
    exact hp
  · intro r a hr
    refine h.rows r a ?_
    rintro rfl
    exact hr ReflTransGen.refl

/-- An acl whose rows are untouched stays as it is everywhere. -/
theorem SameBut.effective_other (h : SameBut db db' role) {a : AclId}
    (ha : ownRow db' role a = ownRow db role a) {r : RoleId}
    (heffective : (r, a) ∈ effective db) : (r, a) ∈ effective db' := by
  refine effective_of_agree (fun _ b => b = a) (fun _ _ _ hb _ => hb) ?_ ?_ rfl heffective
  · intro r b p _ hp
    rw [h.relations]
    exact hp
  · rintro r b rfl
    by_cases hr : r = role
    · rw [hr, ha]
    · exact h.rows r b hr

theorem not_reach_of_inherits (hacyclic : Acyclic (Inherits db.roleRoleRelations))
    {parent : RoleId} (h : Inherits db.roleRoleRelations role parent) :
    ¬ ReflTransGen (Inherits db.roleRoleRelations) parent role :=
  fun hreach => hacyclic role (TransGen.head' h hreach)

end Agreement

section Operative

variable {db db' : Database} {role : RoleId} {acl : Acl}

theorem operative_iff (hacl : acl ∈ db.acls) : Operative db role acl ↔
    role ∈ db.roles.map Role.id ∧ acl.name ≠ "" ∧ (role, acl.id) ∈ effective db := by
  unfold Operative
  rw [operativeInRole_iff]
  constructor
  · rintro ⟨hrole, ⟨a, ha, hid, hhidden, -⟩, heffective⟩
    obtain rfl := List.inj_on_of_nodup_map db.acls_ids ha hacl hid
    exact ⟨hrole, by simpa [plain] using hhidden, heffective⟩
  · rintro ⟨hrole, hname, heffective⟩
    have hpattern : plain.hidden acl.name = false := by simpa [plain] using hname
    exact ⟨hrole, ⟨acl, hacl, rfl, hpattern, hpattern⟩, heffective⟩

theorem inheritedFrom_iff (hacl : acl ∈ db.acls) : InheritedFrom db role acl ↔
    acl.name ≠ "" ∧ ∃ parent, Inherits db.roleRoleRelations role parent ∧
      (parent, acl.id) ∈ effective db := by
  constructor
  · rintro ⟨parent, hparent, hoperative⟩
    obtain ⟨-, hname, heffective⟩ := (operative_iff hacl).mp hoperative
    exact ⟨hname, parent, hparent, heffective⟩
  · rintro ⟨hname, parent, hparent, heffective⟩
    exact ⟨parent, hparent,
      (operative_iff hacl).mpr ⟨(db.roleRole_roles _ hparent).2, hname, heffective⟩⟩

/-- An acl is operative by the role's own row or, without one, by inheritance. -/
theorem operative_by_row (hrole : role ∈ db.roles.map Role.id) (hacl : acl ∈ db.acls)
    (hname : acl.name ≠ "") : Operative db role acl ↔ ownRow db role acl.id = some true ∨
      (ownRow db role acl.id ≠ some false ∧ InheritedFrom db role acl) := by
  rw [operative_iff hacl, effective_iff, positiveRow_iff, negativeRow_iff,
    inheritedFrom_iff hacl]
  simp [hrole, hname]

/-- The edition of a role's rows leaves what it inherits. -/
theorem SameBut.inheritedFrom (h : SameBut db db' role)
    (hacyclic : Acyclic (Inherits db.roleRoleRelations)) (hacl : acl ∈ db.acls) :
    InheritedFrom db' role acl ↔ InheritedFrom db role acl := by
  rw [inheritedFrom_iff hacl, inheritedFrom_iff (h.acls.symm ▸ hacl), h.relations]
  apply and_congr_right
  intro _
  apply exists_congr
  intro parent
  apply and_congr_right
  intro hparent
  have hreach := not_reach_of_inherits hacyclic hparent
  refine ⟨h.symm.effective_parent ?_, h.effective_parent hreach⟩
  rw [h.relations]
  exact hreach

/-- An acl whose row is untouched stays operative or not. -/
theorem SameBut.operative_other (h : SameBut db db' role) (hacl : acl ∈ db.acls)
    (hrow : ownRow db' role acl.id = ownRow db role acl.id) :
    Operative db' role acl ↔ Operative db role acl := by
  rw [operative_iff hacl, operative_iff (h.acls.symm ▸ hacl), h.roles]
  apply and_congr_right
  intro _
  apply and_congr_right
  intro _
  exact ⟨h.symm.effective_other hrow.symm, h.effective_other hrow⟩

end Operative

section Info

variable {db : Database} {role : RoleId} {acl : Acl}

/-- A row of the view carries the name of its acl. -/
theorem exists_acl_of_row {row : OperativeAclInRole} (h : row ∈ operativeAclsInRole db plain) :
    ∃ acl ∈ db.acls, acl.id = row.aclId ∧ acl.name = row.aclName := by
  obtain ⟨⟨k, rows⟩, hgroup, rfl⟩ := List.mem_map.mp h
  obtain ⟨join, hjoin, rfl⟩ := mem_groupBy.mp ⟨rows, hgroup⟩
  exact ⟨join.acl, (mem_roleJoins.mp hjoin).1.1, rfl, rfl⟩

theorem mem_inheritedRoleIds {parent : RoleId} :
    parent ∈ inheritedRoleIds db role ↔ Inherits db.roleRoleRelations role parent := by
  unfold inheritedRoleIds Inherits
  simp only [List.mem_map, List.mem_filter, decide_eq_true_eq]
  constructor
  · rintro ⟨⟨x, y⟩, ⟨hrow, rfl⟩, rfl⟩
    exact hrow
  · exact fun h => ⟨_, ⟨h, rfl⟩, rfl⟩

/-- A name stands among the names of rows exactly when its acl has such a row. -/
theorem mem_names (hacl : acl ∈ db.acls) (p : OperativeAclInRole → Bool) :
    acl.name ∈ ((operativeAclsInRole db plain).filter p).map OperativeAclInRole.aclName ↔
      ∃ row ∈ operativeAclsInRole db plain, p row = true ∧ row.aclId = acl.id := by
  simp only [List.mem_map, List.mem_filter]
  constructor
  · rintro ⟨row, ⟨hrow, hp⟩, hname⟩
    obtain ⟨other, hother, hid, hsame⟩ := exists_acl_of_row hrow
    have heq := List.inj_on_of_nodup_map db.acls_names hother hacl (hsame.trans hname)
    exact ⟨row, hrow, hp, by rw [← hid, heq]⟩
  · rintro ⟨row, hrow, hp, hid⟩
    obtain ⟨other, hother, hsame, hname⟩ := exists_acl_of_row hrow
    have heq := List.inj_on_of_nodup_map db.acls_ids hother hacl (hsame.trans hid)
    exact ⟨row, ⟨hrow, hp⟩, by rw [← hname, heq]⟩

theorem mem_operativeAcls (role : RoleId) (hacl : acl ∈ db.acls) :
    acl.name ∈ (reloadAclsInfo db role).operativeAcls ↔ Operative db role acl := by
  unfold reloadAclsInfo Operative OperativeInRole
  dsimp only
  rw [List.filter_filter, mem_names hacl]
  simp only [Bool.and_eq_true, decide_eq_true_eq, List.mem_cons]
  constructor
  · rintro ⟨row, hrow, ⟨hrole, -, hoperative⟩, hid⟩
    exact ⟨row, hrow, hrole, hid, hoperative⟩
  · rintro ⟨row, hrow, hrole, hid, hoperative⟩
    exact ⟨row, hrow, ⟨hrole, Or.inl hrole, hoperative⟩, hid⟩

theorem mem_inheritedAcls (hacyclic : Acyclic (Inherits db.roleRoleRelations))
    (role : RoleId) (hacl : acl ∈ db.acls) :
    acl.name ∈ (reloadAclsInfo db role).inheritedAcls ↔ InheritedFrom db role acl := by
  unfold reloadAclsInfo InheritedFrom Operative OperativeInRole
  dsimp only
  rw [List.filter_filter, mem_names hacl]
  simp only [Bool.and_eq_true, decide_eq_true_eq, List.mem_cons, mem_inheritedRoleIds]
  constructor
  · rintro ⟨row, hrow, ⟨hne, hself | hparent, hoperative⟩, hid⟩
    · exact absurd hself hne
    · exact ⟨row.roleId, hparent, row, hrow, rfl, hid, hoperative⟩
  · rintro ⟨_, hparent, row, hrow, rfl, hid, hoperative⟩
    refine ⟨row, hrow, ⟨?_, Or.inr hparent, hoperative⟩, hid⟩
    intro heq
    rw [heq] at hparent
    exact hacyclic role (TransGen.single hparent)

theorem mem_ownPositiveAcls (name : String) :
    name ∈ (reloadAclsInfo db role).ownPositiveAcls ↔
      name ∈ (reloadAclsInfo db role).operativeAcls ∧
        name ∉ (reloadAclsInfo db role).inheritedAcls := by
  unfold reloadAclsInfo
  dsimp only
  rw [List.mem_filter, decide_eq_true_eq]

theorem mem_ownNegativeAcls (name : String) :
    name ∈ (reloadAclsInfo db role).ownNegativeAcls ↔
      name ∈ (reloadAclsInfo db role).inheritedAcls ∧
        name ∉ (reloadAclsInfo db role).operativeAcls := by
  unfold reloadAclsInfo
  dsimp only
  rw [List.mem_filter, decide_eq_true_eq]

/-- The view hides the acl with the empty name. -/
theorem empty_not_mem : "" ∉ (reloadAclsInfo db role).operativeAcls ∧
    "" ∉ (reloadAclsInfo db role).inheritedAcls := by
  have hname : ∀ row ∈ operativeAclsInRole db plain, row.aclName ≠ "" := by
    intro row hrow
    obtain ⟨⟨k, rows⟩, hgroup, rfl⟩ := List.mem_map.mp hrow
    obtain ⟨join, hjoin, rfl⟩ := mem_groupBy.mp ⟨rows, hgroup⟩
    have hhidden := (mem_roleJoins.mp hjoin).1.2
    exact of_decide_eq_false hhidden
  unfold reloadAclsInfo
  dsimp only
  constructor
  · rw [List.filter_filter]
    intro hmem
    obtain ⟨row, hrow, hempty⟩ := List.mem_map.mp hmem
    exact hname row (List.mem_filter.mp hrow).1 hempty
  · rw [List.filter_filter]
    intro hmem
    obtain ⟨row, hrow, hempty⟩ := List.mem_map.mp hmem
    exact hname row (List.mem_filter.mp hrow).1 hempty

end Info

section Editing

/-- What one round of a loop does to the row of its acl. -/
inductive Edit
  | keep
  | unassign
  | assign (positive : Bool)
deriving DecidableEq

def Edit.result : Edit → Option Bool → Option Bool
  | .keep, row => row
  | .unassign, _ => none
  | .assign positive, _ => some positive

def perform (db : Database) (role : RoleId) (name : String) : Edit → Except ApiException Database
  | .keep => .ok db
  | .unassign => unassignAclToRole db role name
  | .assign positive => assignAclToRole db role name positive

def addEdit (info : AclsInfo) (name : String) : Edit :=
  if name ∈ info.operativeAcls then .keep
  else if name ∈ info.inheritedAcls then .unassign
  else .assign true

def delEdit (info : AclsInfo) (name : String) : Edit :=
  if name ∉ info.operativeAcls then .keep
  else if name ∈ info.inheritedAcls then .assign false
  else .unassign

variable {db db₀ db' : Database} {role : RoleId} {acl : Acl} {edit : String → Edit}
  {done names : List String} {name : String}

theorem addAclToRole_eq (db₀ db : Database) (role : RoleId) (name : String) :
    addAclToRole (reloadAclsInfo db₀ role) role db name =
      perform db role name (addEdit (reloadAclsInfo db₀ role) name) := by
  unfold addAclToRole addEdit
  simp only [mem_ownNegativeAcls]
  by_cases hoperative : name ∈ (reloadAclsInfo db₀ role).operativeAcls
  · rw [if_pos hoperative, if_pos hoperative]
    rfl
  · rw [if_neg hoperative, if_neg hoperative]
    by_cases hinherited : name ∈ (reloadAclsInfo db₀ role).inheritedAcls
    · rw [if_pos ⟨hinherited, hoperative⟩, if_pos hinherited]
      rfl
    · rw [if_neg fun h => hinherited h.1, if_neg hinherited]
      rfl

theorem delAclToRole_eq (db₀ db : Database) (role : RoleId) (name : String) :
    delAclToRole (reloadAclsInfo db₀ role) role db name =
      perform db role name (delEdit (reloadAclsInfo db₀ role) name) := by
  unfold delAclToRole delEdit
  simp only [mem_ownPositiveAcls]
  by_cases hoperative : name ∈ (reloadAclsInfo db₀ role).operativeAcls
  · rw [if_neg (not_not.mpr hoperative), if_neg (not_not.mpr hoperative)]
    by_cases hinherited : name ∈ (reloadAclsInfo db₀ role).inheritedAcls
    · simp only [hoperative, hinherited, not_true_eq_false, and_false, if_false, if_true]
      rfl
    · simp only [hoperative, hinherited, not_false_eq_true, and_self, if_true, if_false]
      exact bind_pure _
  · rw [if_pos hoperative, if_pos hoperative]
    rfl

/-- An acl is found by its name. -/
theorem findAcl_eq (hacl : acl ∈ db.acls) (hname : acl.name ≠ "") :
    findAcl db acl.name = some acl := by
  unfold findAcl
  rw [if_neg hname]
  cases hfind : db.acls.find? (fun a => a.name = acl.name) with
  | none =>
    have hnone := List.find?_eq_none.mp hfind acl hacl
    simp at hnone
  | some other =>
    have hsame : other.name = acl.name := by simpa using List.find?_some hfind
    rw [List.inj_on_of_nodup_map db.acls_names (List.mem_of_find?_eq_some hfind) hacl hsame]

theorem findAcl_empty (db : Database) : findAcl db "" = none :=
  if_pos rfl

theorem sameBut_insertRow {row : AclRoleRelation} (h : Insertable db row) :
    SameBut db (insertRow db row h) row.roleId := by
  refine ⟨rfl, rfl, rfl, ?_⟩
  intro r a hr
  rw [ownRow_insertRow]
  exact if_neg fun hkey => hr hkey.1

theorem sameBut_deleteRows (db : Database) (role : RoleId) (a : AclId) :
    SameBut db (deleteRows db role a) role := by
  refine ⟨rfl, rfl, rfl, ?_⟩
  intro r b hr
  rw [ownRow_deleteRows]
  exact if_neg fun hkey => hr hkey.1

/-- The tables after the rounds for some names: each edit applied once to the row that the
role had at the beginning. -/
structure Edited (db₀ : Database) (role : RoleId) (edit : String → Edit) (done : List String)
    (db : Database) : Prop where
  same : SameBut db₀ db role
  rows : ∀ acl ∈ db₀.acls, ownRow db role acl.id = if acl.name ∈ done
    then (edit acl.name).result (ownRow db₀ role acl.id) else ownRow db₀ role acl.id

theorem edited_nil (db : Database) (role : RoleId) (edit : String → Edit) :
    Edited db role edit [] db :=
  ⟨SameBut.refl db role, fun _ _ => rfl⟩

/-- A row can be inserted by a round: its acl has a name, comes up for the first time and had
no row at the beginning. -/
def Assignable (db₀ : Database) (role : RoleId) (edit : String → Edit) (done : List String)
    (acl : Acl) : Prop :=
  ∀ positive, edit acl.name = .assign positive →
    acl.name ≠ "" ∧ acl.name ∉ done ∧ ownRow db₀ role acl.id = none

/-- A round that changes one row, and that to what its edit says. -/
theorem Edited.extend (h : Edited db₀ role edit done db) (hacl : acl ∈ db₀.acls)
    (hsame : SameBut db db' role)
    (hrow : ownRow db' role acl.id = (edit acl.name).result (ownRow db₀ role acl.id))
    (hother : ∀ a, a ≠ acl.id → ownRow db' role a = ownRow db role a) :
    Edited db₀ role edit (done ++ [acl.name]) db' := by
  refine ⟨h.same.trans hsame, ?_⟩
  intro other hmem
  simp only [List.mem_append, List.mem_singleton]
  by_cases hid : other.id = acl.id
  · obtain rfl := List.inj_on_of_nodup_map db₀.acls_ids hmem hacl hid
    rw [if_pos (Or.inr rfl), hrow]
  · have hname : other.name ≠ acl.name := by
      intro heq
      exact hid (congrArg Acl.id (List.inj_on_of_nodup_map db₀.acls_names hmem hacl heq))
    rw [hother _ hid, h.rows other hmem]
    simp [hname]

theorem perform_keep (h : Edited db₀ role edit done db) (hacl : acl ∈ db₀.acls)
    (hedit : edit acl.name = .keep) : Edited db₀ role edit (done ++ [acl.name]) db := by
  refine h.extend hacl (SameBut.refl db role) ?_ (fun _ _ => rfl)
  rw [h.rows acl hacl, hedit]
  exact ite_self _

theorem perform_unassign (h : Edited db₀ role edit done db) (hacl : acl ∈ db₀.acls)
    (hname : acl.name ≠ "") (hedit : edit acl.name = .unassign) :
    ∃ db', unassignAclToRole db role acl.name = .ok db' ∧
      Edited db₀ role edit (done ++ [acl.name]) db' := by
  refine ⟨deleteRows db role acl.id, ?_, ?_⟩
  · unfold unassignAclToRole
    rw [findAcl_eq (h.same.acls.symm ▸ hacl) hname]
  · refine h.extend hacl (sameBut_deleteRows db role acl.id) ?_ ?_
    · rw [ownRow_deleteRows, if_pos ⟨rfl, rfl⟩, hedit]
      rfl
    · intro a ha
      rw [ownRow_deleteRows]
      exact if_neg fun hkey => ha hkey.2

/-- An assignment goes through exactly when the role has no row for the acl. -/
theorem assign_iff (h : Edited db₀ role edit done db)
    (hacl : acl ∈ db₀.acls) (hname : acl.name ≠ "") (positive : Bool) (db' : Database) :
    assignAclToRole db role acl.name positive = .ok db' ↔
      ∃ hrow : Insertable db ⟨role, acl.id, positive⟩, db' = insertRow db _ hrow := by
  unfold assignAclToRole
  rw [findAcl_eq (h.same.acls.symm ▸ hacl) hname]
  dsimp only
  by_cases hrow : Insertable db ⟨role, acl.id, positive⟩
  · rw [dif_pos hrow]
    constructor
    · intro heq
      exact ⟨hrow, (Except.ok.inj heq).symm⟩
    · rintro ⟨_, rfl⟩
      rfl
  · rw [dif_neg hrow]
    constructor
    · intro heq
      split at heq <;> cases heq
    · rintro ⟨hrow', -⟩
      exact absurd hrow' hrow

theorem insertable_iff (h : Edited db₀ role edit done db) (hrole : role ∈ db₀.roles.map Role.id)
    (hacl : acl ∈ db₀.acls) (positive : Bool) :
    Insertable db ⟨role, acl.id, positive⟩ ↔ ownRow db role acl.id = none := by
  unfold Insertable
  rw [ownRow_eq_none, h.same.acls, h.same.roles]
  constructor
  · exact fun hrow => hrow.2.2
  · exact fun hrow => ⟨hrole, List.mem_map_of_mem hacl, hrow⟩

theorem perform_assign (h : Edited db₀ role edit done db) (hrole : role ∈ db₀.roles.map Role.id)
    (hacl : acl ∈ db₀.acls) {positive : Bool} (hedit : edit acl.name = .assign positive) :
    ((∃ db', assignAclToRole db role acl.name positive = .ok db') ↔
      Assignable db₀ role edit done acl) ∧
    ∀ db', assignAclToRole db role acl.name positive = .ok db' →
      Edited db₀ role edit (done ++ [acl.name]) db' := by
  by_cases hname : acl.name = ""
  · have herror : assignAclToRole db role acl.name positive = .error ⟨6360⟩ := by
      unfold assignAclToRole
      rw [hname, findAcl_empty]
    rw [herror]
    refine ⟨⟨?_, fun hok => absurd hname (hok positive hedit).1⟩, ?_⟩
    · rintro ⟨db', heq⟩
      cases heq
    · intro db' heq
      cases heq
  · have hassign := assign_iff h hacl hname positive
    have hrow := insertable_iff h hrole hacl positive
    have hrows := h.rows acl hacl
    rw [hedit] at hrows
    constructor
    · simp only [hassign, Assignable, hedit, Edit.assign.injEq, forall_eq']
      rw [exists_comm]
      simp only [exists_eq, exists_prop, and_true, hrow]
      rw [hrows]
      by_cases hdone : acl.name ∈ done
      · simp [hdone, Edit.result]
      · simp [hdone, hname]
    · intro db' heq
      obtain ⟨hinsert, rfl⟩ := (hassign db').mp heq
      refine h.extend hacl (sameBut_insertRow hinsert) ?_ ?_
      · rw [ownRow_insertRow, if_pos ⟨rfl, rfl⟩, hedit]
        rfl
      · intro a ha
        rw [ownRow_insertRow]
        exact if_neg fun hkey => ha hkey.2

/-- One round: it goes through exactly when a row it inserts can be inserted, and then it
applies its edit. -/
theorem perform_step (h : Edited db₀ role edit done db) (hrole : role ∈ db₀.roles.map Role.id)
    (hempty : edit "" ≠ .unassign) (hacl : acl ∈ db₀.acls) :
    ((∃ db', perform db role acl.name (edit acl.name) = .ok db') ↔
      Assignable db₀ role edit done acl) ∧
    ∀ db', perform db role acl.name (edit acl.name) = .ok db' →
      Edited db₀ role edit (done ++ [acl.name]) db' := by
  cases hedit : edit acl.name with
  | keep =>
    refine ⟨iff_of_true ⟨db, rfl⟩ fun positive heq => ?_, ?_⟩
    · rw [hedit] at heq
      cases heq
    · intro db' heq
      obtain rfl := Except.ok.inj heq
      exact perform_keep h hacl hedit
  | unassign =>
    have hname : acl.name ≠ "" := by
      intro heq
      rw [heq] at hedit
      exact hempty hedit
    obtain ⟨db'', hok, hedited⟩ := perform_unassign h hacl hname hedit
    refine ⟨iff_of_true ⟨db'', hok⟩ fun positive heq => ?_, ?_⟩
    · rw [hedit] at heq
      cases heq
    · intro db' heq
      obtain rfl := Except.ok.inj (hok.symm.trans heq)
      exact hedited
  | assign positive => exact perform_assign h hrole hacl hedit

/-- What the rounds after the first one need, and what the first one has given. -/
theorem assignable_cons {other : Acl} (hacl : acl ∈ db₀.acls) (hother : other ∈ db₀.acls)
    (hmem : other.name ∈ acl.name :: names) (hfirst : Assignable db₀ role edit done acl)
    (hlater : other.name ∈ names → Assignable db₀ role edit (done ++ [acl.name]) other ∧
      ∀ positive, edit other.name = .assign positive → names.count other.name = 1) :
    Assignable db₀ role edit done other ∧
      ∀ positive, edit other.name = .assign positive →
        (acl.name :: names).count other.name = 1 := by
  by_cases hrest : other.name ∈ names
  · obtain ⟨hassignable, hcount⟩ := hlater hrest
    have hnot : ∀ positive, edit other.name = .assign positive →
        other.name ∉ done ∧ acl.name ≠ other.name := by
      intro positive hedit
      have hdone := (hassignable positive hedit).2.1
      rw [List.mem_append, List.mem_singleton, not_or] at hdone
      exact ⟨hdone.1, Ne.symm hdone.2⟩
    refine ⟨fun positive hedit => ?_, fun positive hedit => ?_⟩
    · obtain ⟨hname, -, hrow⟩ := hassignable positive hedit
      exact ⟨hname, (hnot positive hedit).1, hrow⟩
    · rw [List.count_cons_of_ne (hnot positive hedit).2]
      exact hcount positive hedit
  · have hsame : other.name = acl.name := (List.mem_cons.mp hmem).resolve_right hrest
    obtain rfl := List.inj_on_of_nodup_map db₀.acls_names hother hacl hsame
    refine ⟨hfirst, fun _ _ => ?_⟩
    rw [List.count_cons_self, List.count_eq_zero_of_not_mem hrest]

theorem assignable_rest {other : Acl} (hmem : other.name ∈ names)
    (hall : Assignable db₀ role edit done other ∧ ∀ positive,
      edit other.name = .assign positive → (name :: names).count other.name = 1) :
    Assignable db₀ role edit (done ++ [name]) other ∧
      ∀ positive, edit other.name = .assign positive → names.count other.name = 1 := by
  have hne : ∀ positive, edit other.name = .assign positive → name ≠ other.name := by
    rintro positive hedit rfl
    have hcount := hall.2 positive hedit
    rw [List.count_cons_self] at hcount
    have hpos := List.count_pos_iff.mpr hmem
    omega
  refine ⟨fun positive hedit => ?_, fun positive hedit => ?_⟩
  · obtain ⟨hname, hdone, hrow⟩ := hall.1 positive hedit
    refine ⟨hname, ?_, hrow⟩
    rw [List.mem_append, List.mem_singleton, not_or]
    exact ⟨hdone, Ne.symm (hne positive hedit)⟩
  · have hcount := hall.2 positive hedit
    rwa [List.count_cons_of_ne (hne positive hedit)] at hcount

/-- A loop over acls: it comes to its end exactly when every row it inserts can be inserted
at its turn, and then it has applied all edits. -/
theorem fold_edits (hrole : role ∈ db₀.roles.map Role.id) (hempty : edit "" ≠ .unassign)
    (hnames : ∀ name ∈ names, ∃ acl ∈ db₀.acls, acl.name = name)
    (h : Edited db₀ role edit done db) :
    ((∃ db', names.foldlM (fun db name => perform db role name (edit name)) db = .ok db') ↔
      ∀ acl ∈ db₀.acls, acl.name ∈ names → Assignable db₀ role edit done acl ∧
        (∀ positive, edit acl.name = .assign positive → names.count acl.name = 1)) ∧
    ∀ db', names.foldlM (fun db name => perform db role name (edit name)) db = .ok db' →
      Edited db₀ role edit (done ++ names) db' := by
  induction names generalizing done db with
  | nil =>
    refine ⟨iff_of_true ⟨db, rfl⟩ (by simp), ?_⟩
    intro db' heq
    obtain rfl := Except.ok.inj heq
    rw [List.append_nil]
    exact h
  | cons name rest ih =>
    obtain ⟨acl, hacl, rfl⟩ := hnames name List.mem_cons_self
    have hrest : ∀ name ∈ rest, ∃ acl ∈ db₀.acls, acl.name = name :=
      fun name hmem => hnames name (List.mem_cons_of_mem _ hmem)
    obtain ⟨hstep, hedited⟩ := perform_step h hrole hempty hacl
    simp only [List.foldlM_cons, bind_ok]
    constructor
    · rw [exists_comm]
      simp only [exists_and_left]
      constructor
      · rintro ⟨db₁, hfirst, hfold⟩ other hother hmem
        have hlater := (ih hrest (hedited db₁ hfirst)).1.mp hfold other hother
        exact assignable_cons hacl hother hmem (hstep.mp ⟨db₁, hfirst⟩) hlater
      · intro hall
        obtain ⟨db₁, hfirst⟩ := hstep.mpr (hall acl hacl List.mem_cons_self).1
        refine ⟨db₁, hfirst, (ih hrest (hedited db₁ hfirst)).1.mpr ?_⟩
        intro other hother hmem
        exact assignable_rest hmem (hall other hother (List.mem_cons_of_mem _ hmem))
    · rintro db' ⟨db₁, hfirst, hfold⟩
      have hall := (ih hrest (hedited db₁ hfirst)).2 db' hfold
      rwa [List.append_assoc] at hall

end Editing

section AclCalls

variable {db db' : Database} {role : RoleId} {acl : Acl} {given names : List String}

theorem addAclsToRole_eq (h : Identifies db given names) :
    addAclsToRole db ⟨role, none⟩ given = names.foldlM
      (fun db' name => perform db' role name (addEdit (reloadAclsInfo db role) name)) db := by
  unfold addAclsToRole
  rw [h.resolved]
  show names.foldlM (addAclToRole (reloadAclsInfo db role) role) db = _
  congr 1
  funext db' name
  exact addAclToRole_eq db db' role name

theorem delAclsToRole_eq (h : Identifies db given names) :
    delAclsToRole db ⟨role, none⟩ given = names.foldlM
      (fun db' name => perform db' role name (delEdit (reloadAclsInfo db role) name)) db := by
  unfold delAclsToRole
  rw [h.resolved]
  show names.foldlM (delAclToRole (reloadAclsInfo db role) role) db = _
  congr 1
  funext db' name
  exact delAclToRole_eq db db' role name

theorem addEdit_empty : addEdit (reloadAclsInfo db role) "" ≠ .unassign := by
  unfold addEdit
  rw [if_neg empty_not_mem.1, if_neg empty_not_mem.2]
  rintro ⟨⟩

theorem delEdit_empty : delEdit (reloadAclsInfo db role) "" ≠ .unassign := by
  unfold delEdit
  rw [if_pos empty_not_mem.1]
  rintro ⟨⟩

variable (hacyclic : Acyclic (Inherits db.roleRoleRelations))
  (hrole : role ∈ db.roles.map Role.id)

include hacyclic in
theorem addEdit_acl (role : RoleId) (hacl : acl ∈ db.acls) :
    (Operative db role acl → addEdit (reloadAclsInfo db role) acl.name = .keep) ∧
    (¬ Operative db role acl → InheritedFrom db role acl →
      addEdit (reloadAclsInfo db role) acl.name = .unassign) ∧
    (¬ Operative db role acl → ¬ InheritedFrom db role acl →
      addEdit (reloadAclsInfo db role) acl.name = .assign true) := by
  rw [← mem_operativeAcls role hacl, ← mem_inheritedAcls hacyclic role hacl]
  unfold addEdit
  refine ⟨fun hop => if_pos hop, fun hop hinh => ?_, fun hop hinh => ?_⟩
  · rw [if_neg hop, if_pos hinh]
  · rw [if_neg hop, if_neg hinh]

include hacyclic in
theorem delEdit_acl (role : RoleId) (hacl : acl ∈ db.acls) :
    (¬ Operative db role acl → delEdit (reloadAclsInfo db role) acl.name = .keep) ∧
    (Operative db role acl → InheritedFrom db role acl →
      delEdit (reloadAclsInfo db role) acl.name = .assign false) ∧
    (Operative db role acl → ¬ InheritedFrom db role acl →
      delEdit (reloadAclsInfo db role) acl.name = .unassign) := by
  rw [← mem_operativeAcls role hacl, ← mem_inheritedAcls hacyclic role hacl]
  unfold delEdit
  refine ⟨fun hop => if_pos hop, fun hop hinh => ?_, fun hop hinh => ?_⟩
  · rw [if_neg (not_not.mpr hop), if_pos hinh]
  · rw [if_neg (not_not.mpr hop), if_neg hinh]

include hrole in
/-- Without an operative acl the row is a negative one or none. -/
theorem ownRow_of_not_operative (hacl : acl ∈ db.acls) (hname : acl.name ≠ "")
    (hop : ¬ Operative db role acl) :
    ownRow db role acl.id = none ↔ ¬ NegativeRow db role acl.id := by
  rw [negativeRow_iff]
  rw [operative_by_row hrole hacl hname] at hop
  rcases hrow : ownRow db role acl.id with _ | (_ | _)
  · simp
  · simp
  · exact absurd (Or.inl hrow) hop

include hrole in
/-- With an operative acl the row is a positive one or none. -/
theorem ownRow_of_operative (hacl : acl ∈ db.acls) (hname : acl.name ≠ "")
    (hop : Operative db role acl) :
    ownRow db role acl.id = none ↔ ¬ PositiveRow db role acl.id := by
  rw [positiveRow_iff]
  rw [operative_by_row hrole hacl hname] at hop
  rcases hrow : ownRow db role acl.id with _ | (_ | _)
  · simp
  · rcases hop with htrue | ⟨hne, -⟩
    · rw [hrow] at htrue
      cases htrue
    · exact absurd hrow hne
  · simp

include hacyclic hrole in
theorem operative_after_add (h : Edited db role (addEdit (reloadAclsInfo db role)) names db')
    (hacl : acl ∈ db.acls) (hlisted : acl.name ∈ names)
    (hname : ¬ Operative db role acl → ¬ InheritedFrom db role acl → acl.name ≠ "") :
    Operative db' role acl := by
  have hrow := h.rows acl hacl
  rw [if_pos hlisted] at hrow
  obtain ⟨hkeep, hunassign, hassign⟩ := addEdit_acl hacyclic role hacl
  by_cases hop : Operative db role acl
  · rw [hkeep hop] at hrow
    exact (h.same.operative_other hacl hrow).mpr hop
  · have hrole' : role ∈ db'.roles.map Role.id := h.same.roles.symm ▸ hrole
    have hacl' : acl ∈ db'.acls := h.same.acls.symm ▸ hacl
    by_cases hinh : InheritedFrom db role acl
    · rw [hunassign hop hinh] at hrow
      refine (operative_by_row hrole' hacl' ((inheritedFrom_iff hacl).mp hinh).1).mpr (Or.inr ?_)
      rw [hrow]
      exact ⟨by rintro ⟨⟩, (h.same.inheritedFrom hacyclic hacl).mpr hinh⟩
    · rw [hassign hop hinh] at hrow
      exact (operative_by_row hrole' hacl' (hname hop hinh)).mpr (Or.inl hrow)

include hacyclic hrole in
theorem not_operative_after_del
    (h : Edited db role (delEdit (reloadAclsInfo db role)) names db')
    (hacl : acl ∈ db.acls) (hlisted : acl.name ∈ names) : ¬ Operative db' role acl := by
  have hrow := h.rows acl hacl
  rw [if_pos hlisted] at hrow
  obtain ⟨hkeep, hassign, hunassign⟩ := delEdit_acl hacyclic role hacl
  by_cases hop : Operative db role acl
  · have hrole' : role ∈ db'.roles.map Role.id := h.same.roles.symm ▸ hrole
    have hacl' : acl ∈ db'.acls := h.same.acls.symm ▸ hacl
    have hname := ((operative_iff hacl).mp hop).2.1
    rw [operative_by_row hrole' hacl' hname, h.same.inheritedFrom hacyclic hacl]
    by_cases hinh : InheritedFrom db role acl
    · rw [hrow, hassign hop hinh]
      simp [Edit.result]
    · rw [hrow, hunassign hop hinh]
      simp [Edit.result, hinh]
  · rw [hkeep hop] at hrow
    rw [h.same.operative_other hacl hrow]
    exact hop

include hacyclic hrole in
/-- The addition of acls does what it says exactly under its condition. -/
theorem add_edits_iff (h : Identifies db given names) :
    Edits db role names true (addAclsToRole db ⟨role, none⟩ given) ↔ AddOk db role names := by
  obtain ⟨hok, hedited⟩ := fold_edits hrole addEdit_empty h.exist
    (edited_nil db role (addEdit (reloadAclsInfo db role)))
  rw [addAclsToRole_eq h]
  have hcondition : (∀ acl ∈ db.acls, acl.name ∈ names →
      Assignable db role (addEdit (reloadAclsInfo db role)) [] acl ∧
        ∀ positive, addEdit (reloadAclsInfo db role) acl.name = .assign positive →
          names.count acl.name = 1) ↔ AddOk db role names := by
    refine forall₂_congr fun acl hacl => forall_congr' fun hlisted => ?_
    obtain ⟨hkeep, hunassign, hassign⟩ := addEdit_acl hacyclic role hacl
    by_cases hop : Operative db role acl
    · simp [Assignable, hkeep hop, hop]
    · by_cases hinh : InheritedFrom db role acl
      · simp [Assignable, hunassign hop hinh, hop, hinh]
      · simp only [Assignable, hassign hop hinh, hop, hinh, Edit.assign.injEq, forall_eq',
          List.not_mem_nil, not_false_eq_true, true_and, forall_const]
        rw [and_assoc]
        exact and_congr_right fun hname =>
          and_congr_left fun _ => ownRow_of_not_operative hrole hacl hname hop
  constructor
  · rintro ⟨db', heq, -⟩
    exact hcondition.mp (hok.mp ⟨db', heq⟩)
  · intro hadd
    obtain ⟨db', heq⟩ := hok.mpr (hcondition.mpr hadd)
    have hedit := hedited db' heq
    rw [List.nil_append] at hedit
    refine ⟨db', heq, ?_⟩
    intro acl hacl
    split
    · rename_i hlisted
      refine iff_of_true (operative_after_add hacyclic hrole hedit hacl hlisted ?_) rfl
      exact fun hop hinh => (hadd acl hacl hlisted hop hinh).1
    · rename_i hlisted
      have hrow := hedit.rows acl hacl
      rw [if_neg hlisted] at hrow
      exact hedit.same.operative_other hacl hrow

include hacyclic hrole in
theorem del_edits_iff (h : Identifies db given names) :
    Edits db role names false (delAclsToRole db ⟨role, none⟩ given) ↔ DelOk db role names := by
  obtain ⟨hok, hedited⟩ := fold_edits hrole delEdit_empty h.exist
    (edited_nil db role (delEdit (reloadAclsInfo db role)))
  rw [delAclsToRole_eq h]
  have hcondition : (∀ acl ∈ db.acls, acl.name ∈ names →
      Assignable db role (delEdit (reloadAclsInfo db role)) [] acl ∧
        ∀ positive, delEdit (reloadAclsInfo db role) acl.name = .assign positive →
          names.count acl.name = 1) ↔ DelOk db role names := by
    refine forall₂_congr fun acl hacl => forall_congr' fun hlisted => ?_
    obtain ⟨hkeep, hassign, hunassign⟩ := delEdit_acl hacyclic role hacl
    by_cases hop : Operative db role acl
    · have hname := ((operative_iff hacl).mp hop).2.1
      by_cases hinh : InheritedFrom db role acl
      · simp only [Assignable, hassign hop hinh, hop, hinh, Edit.assign.injEq, forall_eq',
          List.not_mem_nil, not_false_eq_true, true_and, forall_const]
        rw [and_iff_right hname]
        exact and_congr_left fun _ => ownRow_of_operative hrole hacl hname hop
      · simp [Assignable, hunassign hop hinh, hop, hinh]
    · simp [Assignable, hkeep hop, hop]
  constructor
  · rintro ⟨db', heq, -⟩
    exact hcondition.mp (hok.mp ⟨db', heq⟩)
  · intro hdel
    obtain ⟨db', heq⟩ := hok.mpr (hcondition.mpr hdel)
    have hedit := hedited db' heq
    rw [List.nil_append] at hedit
    refine ⟨db', heq, ?_⟩
    intro acl hacl
    split
    · rename_i hlisted
      exact iff_of_false (not_operative_after_del hacyclic hrole hedit hacl hlisted)
        Bool.false_ne_true
    · rename_i hlisted
      have hrow := hedit.rows acl hacl
      rw [if_neg hlisted] at hrow
      exact hedit.same.operative_other hacl hrow

end AclCalls

section RoleCalls

variable {db : Database} {role : RoleId} {acl : Acl} {given : List String} {ids : List RoleId}

/-- The tables after the roles have been unassigned. -/
def withoutRoles (db : Database) (role : RoleId) (ids : List RoleId) : Database :=
  ids.foldl (fun db id => deleteRoleRow db role id) db

theorem withoutRoles_tables (db : Database) (role : RoleId) (ids : List RoleId) :
    (withoutRoles db role ids).acls = db.acls ∧ (withoutRoles db role ids).roles = db.roles ∧
      (withoutRoles db role ids).aclRoleRelations = db.aclRoleRelations := by
  unfold withoutRoles
  induction ids generalizing db with
  | nil => exact ⟨rfl, rfl, rfl⟩
  | cons id rest ih => exact ih (deleteRoleRow db role id)

theorem inherits_withoutRoles {r parent : RoleId} :
    Inherits (withoutRoles db role ids).roleRoleRelations r parent ↔
      Inherits db.roleRoleRelations r parent ∧ ¬ (r = role ∧ parent ∈ ids) := by
  unfold withoutRoles
  induction ids generalizing db with
  | nil => simp
  | cons id rest ih =>
    rw [List.foldl_cons, ih]
    have hone : Inherits (deleteRoleRow db role id).roleRoleRelations r parent ↔
        Inherits db.roleRoleRelations r parent ∧ ¬ (r = role ∧ parent = id) := by
      simp only [Inherits, deleteRoleRow, List.mem_filter, Bool.not_eq_true',
        Bool.and_eq_false_iff, decide_eq_false_iff_not, not_and_or]
    rw [hone, List.mem_cons]
    tauto

/-- The loop over the negative acls skips all of them, since each is inherited. -/
theorem delRolesToRole_eq (h : roleIds db given = .ok ids) :
    delRolesToRole db ⟨role, none⟩ given = .ok (withoutRoles db role ids) := by
  unfold delRolesToRole
  rw [h]
  show (reloadAclsInfo (withoutRoles db role ids) role).ownNegativeAcls.foldlM
    (fun db' name =>
      if name ∈ (reloadAclsInfo (withoutRoles db role ids) role).inheritedAcls then .ok db'
      else unassignAclToRole db' role name) (withoutRoles db role ids) = _
  have hall : ∀ name ∈ (reloadAclsInfo (withoutRoles db role ids) role).ownNegativeAcls,
      name ∈ (reloadAclsInfo (withoutRoles db role ids) role).inheritedAcls :=
    fun name hmem => ((mem_ownNegativeAcls name).mp hmem).1
  generalize (reloadAclsInfo (withoutRoles db role ids) role).ownNegativeAcls = names at hall ⊢
  induction names with
  | nil => rfl
  | cons name rest ih =>
    rw [List.foldlM_cons, if_pos (hall name List.mem_cons_self)]
    exact ih fun other hmem => hall other (List.mem_cons_of_mem _ hmem)

/-- A parent keeps its acls when the role's own inheritance is cut. -/
theorem operative_withoutRoles (hacyclic : Acyclic (Inherits db.roleRoleRelations))
    {parent : RoleId} (hparent : Inherits db.roleRoleRelations role parent)
    (hacl : acl ∈ db.acls) :
    Operative (withoutRoles db role ids) parent acl ↔ Operative db parent acl := by
  obtain ⟨hacls, hroles, hrows⟩ := withoutRoles_tables db role ids
  have hown : ∀ r a, ownRow (withoutRoles db role ids) r a = ownRow db r a := by
    intro r a
    unfold ownRow
    rw [hrows]
  have hreach := not_reach_of_inherits hacyclic hparent
  rw [operative_iff hacl, operative_iff (hacls.symm ▸ hacl), hroles]
  apply and_congr_right
  intro _
  apply and_congr_right
  intro _
  constructor
  · refine effective_of_agree
      (fun r _ => ¬ ReflTransGen (Inherits db.roleRoleRelations) r role) ?_ ?_ ?_ hreach
    · exact fun r a p hr hp hp' => hr (hp'.head (inherits_withoutRoles.mp hp).1)
    · exact fun r a p _ hp => (inherits_withoutRoles.mp hp).1
    · exact fun r a _ => (hown r a).symm
  · refine effective_of_agree
      (fun r _ => ¬ ReflTransGen (Inherits db.roleRoleRelations) r role) ?_ ?_ ?_ hreach
    · exact fun r a p hr hp hp' => hr (hp'.head hp)
    · intro r a p hr hp
      refine inherits_withoutRoles.mpr ⟨hp, ?_⟩
      rintro ⟨rfl, -⟩
      exact hr ReflTransGen.refl
    · exact fun r a _ => hown r a

/-- After the removal of roles no idle negative row is left exactly when there is none in the
tables without the removed rows: the call itself deletes no row of an acl. -/
theorem delRoles_idle_iff (hacyclic : Acyclic (Inherits db.roleRoleRelations))
    (h : roleIds db given = .ok ids) :
    (∃ db', delRolesToRole db ⟨role, none⟩ given = .ok db' ∧ NoIdleNegative db' role) ↔
      DelRolesOk db role ids := by
  rw [delRolesToRole_eq h]
  have hunfold : (∃ db', (.ok (withoutRoles db role ids) : Except ApiException Database) =
      .ok db' ∧ NoIdleNegative db' role) ↔ NoIdleNegative (withoutRoles db role ids) role := by
    constructor
    · rintro ⟨db', heq, hidle⟩
      obtain rfl := Except.ok.inj heq
      exact hidle
    · exact fun hidle => ⟨_, rfl, hidle⟩
  rw [hunfold]
  unfold NoIdleNegative DelRolesOk NegativeRow InheritedFrom
  obtain ⟨hacls, -, hrows⟩ := withoutRoles_tables db role ids
  rw [hacls, hrows]
  refine forall₂_congr fun acl hacl => forall_congr' fun _ => exists_congr fun parent => ?_
  rw [inherits_withoutRoles]
  constructor
  · rintro ⟨⟨hparent, hnot⟩, hop⟩
    exact ⟨fun hmem => hnot ⟨rfl, hmem⟩, hparent,
      (operative_withoutRoles hacyclic hparent hacl).mp hop⟩
  · rintro ⟨hnot, hparent, hop⟩
    exact ⟨⟨hparent, fun hmem => hnot hmem.2⟩,
      (operative_withoutRoles hacyclic hparent hacl).mpr hop⟩

end RoleCalls

section Calls

/-- The three editions of the acls of a role, on any acyclic graph with any rows: each does
what it says exactly under its condition. -/
theorem role_acls_edited_iff (db : Database) (role : RoleId) (given names givenRoles : List String)
    (ids : List RoleId) (hacyclic : Acyclic (Inherits db.roleRoleRelations))
    (hrole : role ∈ db.roles.map Role.id) (hnames : Identifies db given names)
    (hids : roleIds db givenRoles = .ok ids) :
    (Edits db role names true (addAclsToRole db ⟨role, none⟩ given) ↔ AddOk db role names) ∧
    (Edits db role names false (delAclsToRole db ⟨role, none⟩ given) ↔ DelOk db role names) ∧
    ((∃ db', delRolesToRole db ⟨role, none⟩ givenRoles = .ok db' ∧ NoIdleNegative db' role) ↔
      DelRolesOk db role ids) :=
  ⟨add_edits_iff hacyclic hrole hnames, del_edits_iff hacyclic hrole hnames,
    delRoles_idle_iff hacyclic hids⟩

end Calls

section TwoRoles

/-- One acl and two roles, the first of which inherits the second, each with a row or not. -/
def twoRoles (own parent : Option Bool) : Database where
  acls := [{ id := 1, name := "vm.see-main.", description := none }]
  roles := [{ id := 1, name := "Operator L1" }, { id := 2, name := "Images Manager" }]
  administrators := []
  roleRoleRelations := [{ inheritorId := 1, inheritedId := 2 }]
  aclRoleRelations := (own.map (AclRoleRelation.mk 1 1)).toList ++
    (parent.map (AclRoleRelation.mk 2 1)).toList
  roleAdministratorRelations := []
  acls_ids := by simp
  acls_names := by simp
  roles_ids := by simp
  aclRole_unique := by cases own <;> cases parent <;> simp
  roleRole_roles := by simp
  aclRole_acls := by cases own <;> cases parent <;> simp
  roleAdministrator_roles := by simp

theorem twoRoles_acyclic (own parent : Option Bool) :
    Acyclic (Inherits (twoRoles own parent).roleRoleRelations) := by
  apply acyclic_of_lt
  intro x y hxy
  obtain ⟨rfl, rfl⟩ := RoleRoleRelation.mk.inj (List.mem_singleton.mp hxy)
  decide

theorem twoRoles_names (own parent : Option Bool) :
    Identifies (twoRoles own parent) ["vm.see-main."] ["vm.see-main."] :=
  ⟨rfl, by simp [twoRoles]⟩

/-- An inherited acl is added, removed again by a negative row, and the role it comes from is
removed from a role without negative rows. -/
theorem inherited_acl_edited :
    Edits (twoRoles none (some true)) 1 ["vm.see-main."] true
      (addAclsToRole (twoRoles none (some true)) ⟨1, none⟩ ["vm.see-main."]) ∧
    Edits (twoRoles none (some true)) 1 ["vm.see-main."] false
      (delAclsToRole (twoRoles none (some true)) ⟨1, none⟩ ["vm.see-main."]) ∧
    ∃ db', delRolesToRole (twoRoles none (some true)) ⟨1, none⟩ ["2"] = .ok db' ∧
      NoIdleNegative db' 1 := by
  have hids : roleIds (twoRoles none (some true)) ["2"] = .ok [2] := rfl
  obtain ⟨hadd, hdel, hroles⟩ := role_acls_edited_iff _ 1 _ _ _ _
    (twoRoles_acyclic none (some true)) (by decide) (twoRoles_names none (some true)) hids
  have hpositive : ¬ PositiveRow (twoRoles none (some true)) 1 1 := by
    unfold PositiveRow
    decide
  have hnegative : ¬ NegativeRow (twoRoles none (some true)) 1 1 := by
    unfold NegativeRow
    decide
  refine ⟨hadd.mpr ?_, hdel.mpr ?_, hroles.mpr ?_⟩
  · intro acl hacl _ _ _
    obtain rfl := List.mem_singleton.mp hacl
    exact ⟨by decide, hnegative, by decide⟩
  · intro acl hacl _ _ _
    obtain rfl := List.mem_singleton.mp hacl
    exact ⟨hpositive, by decide⟩
  · intro acl hacl hrow
    obtain rfl := List.mem_singleton.mp hacl
    exact absurd hrow hnegative

/-- An acl with a negative row that nothing inherited needs cannot be added; one that is both
assigned and inherited cannot be removed; and the negative row stays when the role that made
it necessary is removed. -/
theorem acl_editions_fail :
    (addAclsToRole (twoRoles (some false) none) ⟨1, none⟩ ["vm.see-main."] = .error ⟨7220⟩ ∧
      ¬ Edits (twoRoles (some false) none) 1 ["vm.see-main."] true
        (addAclsToRole (twoRoles (some false) none) ⟨1, none⟩ ["vm.see-main."])) ∧
    (delAclsToRole (twoRoles (some true) (some true)) ⟨1, none⟩ ["vm.see-main."] =
        .error ⟨7220⟩ ∧
      ¬ Edits (twoRoles (some true) (some true)) 1 ["vm.see-main."] false
        (delAclsToRole (twoRoles (some true) (some true)) ⟨1, none⟩ ["vm.see-main."])) ∧
    ¬ ∃ db', delRolesToRole (twoRoles (some false) (some true)) ⟨1, none⟩ ["2"] = .ok db' ∧
      NoIdleNegative db' 1 := by
  have hadd : addAclsToRole (twoRoles (some false) none) ⟨1, none⟩ ["vm.see-main."] =
      .error ⟨7220⟩ := by decide
  have hdel : delAclsToRole (twoRoles (some true) (some true)) ⟨1, none⟩ ["vm.see-main."] =
      .error ⟨7220⟩ := by decide
  refine ⟨⟨hadd, ?_⟩, ⟨hdel, ?_⟩, ?_⟩
  · rintro ⟨db', heq, -⟩
    rw [hadd] at heq
    cases heq
  · rintro ⟨db', heq, -⟩
    rw [hdel] at heq
    cases heq
  · have hids : roleIds (twoRoles (some false) (some true)) ["2"] = .ok [2] := rfl
    rw [delRoles_idle_iff (twoRoles_acyclic (some false) (some true)) hids]
    intro hok
    obtain ⟨parent, hnot, hparent, -⟩ := hok _ (List.mem_singleton_self _)
      (show NegativeRow (twoRoles (some false) (some true)) 1 1 by unfold NegativeRow; decide)
    obtain ⟨-, rfl⟩ := RoleRoleRelation.mk.inj (List.mem_singleton.mp hparent)
    exact hnot (List.mem_singleton_self _)

end TwoRoles

end Qvd.RoleAcls
