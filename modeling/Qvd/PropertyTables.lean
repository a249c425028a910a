import Qvd.KeyedRows
import Qvd.RestModel

/-!
The tables of the custom properties, and what a model finds in them: whether a key names a
property for an administrator does not depend on the properties of other tenants, unless they have
one with the same key.
-/
namespace Qvd.PropertyTables

open NumberedPath KeyedRows RestModel

/-! ### The tables -/

section Tables

/-- A row of `properties_list`. -/
structure Property where
  id : ℕ
  key : Text
  tenantId : ℤ

/-- A row of `qvd_object_properties_list`: a property is one of the objects of a kind. -/
structure ObjectProperty where
  id : ℕ
  propertyId : ℕ
  qvdObject : Text

/-- The tables with their keys, the enumeration of the kinds, and the reference between them. -/
structure Tables where
  properties : List Property
  assignments : List ObjectProperty
  properties_nodup : (properties.map (·.id)).Nodup
  keys_nodup : (properties.map fun row => (row.key, row.tenantId)).Nodup
  assignments_nodup : (assignments.map (·.id)).Nodup
  pairs_nodup : (assignments.map fun row => (row.propertyId, row.qvdObject)).Nodup
  kinds : ∀ row ∈ assignments, row.qvdObject ∈ Model.propertyObjects
  references : ∀ row ∈ assignments, ∃ property ∈ properties, property.id = row.propertyId

/-- The rows for a kind of object with their keys and tenants, joined from the properties. -/
def Tables.search (tables : Tables) (kind : Text) : List PropertyRow :=
  (tables.assignments.filter fun row => row.qvdObject = kind).filterMap fun row =>
    (tables.properties.find? fun property => property.id = row.propertyId).map fun property =>
      ⟨property.key, property.tenantId⟩

/-- A property with the key is assigned to the kind of object in the tenant. -/
def Tables.Assigned (tables : Tables) (kind key : Text) (tenantId : ℤ) : Prop :=
  ∃ row ∈ tables.assignments, ∃ property ∈ tables.properties,
    property.id = row.propertyId ∧ row.qvdObject = kind ∧ property.key = key ∧
      property.tenantId = tenantId

theorem find_property (tables : Tables) {property : Property}
    (hproperty : property ∈ tables.properties) :
    (tables.properties.find? fun other => other.id = property.id) = some property := by
  cases hfound : tables.properties.find? fun other => other.id = property.id with
  | none => exact absurd (decide_eq_true rfl) (List.find?_eq_none.mp hfound property hproperty)
  | some other =>
    have hid : other.id = property.id := by simpa using List.find?_some hfound
    rw [List.inj_on_of_nodup_map tables.properties_nodup (List.mem_of_find?_eq_some hfound)
      hproperty hid]

theorem mem_search (tables : Tables) (kind : Text) (row : PropertyRow) :
    row ∈ tables.search kind ↔ tables.Assigned kind row.key row.tenantId := by
  unfold Tables.search Tables.Assigned
  rw [List.mem_filterMap]
  constructor
  · rintro ⟨assignment, hassignment, hrow⟩
    obtain ⟨property, hfound, rfl⟩ := Option.map_eq_some_iff.mp hrow
    obtain ⟨hmem, hkind⟩ := List.mem_filter.mp hassignment
    exact ⟨assignment, hmem, property, List.mem_of_find?_eq_some hfound,
      by simpa using List.find?_some hfound, by simpa using hkind, rfl, rfl⟩
  · rintro ⟨assignment, hmem, property, hproperty, hid, hkind, hkey, htenant⟩
    refine ⟨assignment, List.mem_filter.mpr ⟨hmem, by simpa using hkind⟩, ?_⟩
    rw [← hid, find_property tables hproperty, Option.map_some, hkey, htenant]

end Tables

/-! ### The look-up -/

section Lookup

/-- `lc($self->qvd_object)`. -/
def kindOf (model : Model) : Text := model.qvdObject.toList.map Char.toLower

/-- The model with the rows that it finds, in the order in which they come. -/
def loaded (model : Model) (tables : Tables) (order : HashOrder) : Model :=
  { model with properties := order.keys (tables.search (kindOf model)) }

/-- `has_property`. -/
def hasProperty (model : Model) (tables : Tables) (order : HashOrder) (key : Text) : Bool :=
  (loaded model tables order).hasProperty key

variable (model : Model) (tables tables' : Tables) (key : Text)

/-- The tenant of the administrator has the property, or any does for a superadmin. -/
def Has : Prop :=
  if model.administrator.isSuperadmin then ∃ tenantId, tables.Assigned (kindOf model) key tenantId
  else tables.Assigned (kindOf model) key model.administrator.tenantId

/-- The tables differ in the properties of other tenants only. -/
def SameFor (tenantId : ℤ) : Prop :=
  ∀ kind key, tables.Assigned kind key tenantId ↔ tables'.Assigned kind key tenantId

/-- The look-up finds the property if and only if it is there, in whatever order the rows come,
and if only properties of other tenants change the answer of an administrator of a tenant stays. -/
def Independent : Prop :=
  (∀ order, hasProperty model tables order key = true ↔ Has model tables key) ∧
  (model.administrator.isSuperadmin = false →
    SameFor tables tables' model.administrator.tenantId →
      ∀ order order', hasProperty model tables order key = hasProperty model tables' order' key)

/-- The administrator sees all tenants, or the own tenant has no such property, or no other has. -/
def Alone : Prop :=
  model.administrator.isSuperadmin = true ∨
  ¬tables.Assigned (kindOf model) key model.administrator.tenantId ∨
  ∀ tenantId, tables.Assigned (kindOf model) key tenantId →
    tenantId = model.administrator.tenantId

variable {model tables tables' key} {order : HashOrder}

theorem mem_rows {row : PropertyRow} : row ∈ (loaded model tables order).properties ↔
    tables.Assigned (kindOf model) row.key row.tenantId := by
  change row ∈ order.keys _ ↔ _
  rw [(order.perm _).mem_iff, mem_search]

/-- The tenant found is that of the last row with the key. -/
theorem customPropertyTenant_eq (model : Model) (tables : Tables) (order : HashOrder)
    (key : Text) : (loaded model tables order).customPropertyTenant key =
      (((order.keys (tables.search (kindOf model))).filter fun row => row.key = key).getLast?).map
        PropertyRow.tenantId := by
  unfold Model.customPropertyTenant
  change (if kindOf model ∈ Model.propertyObjects then _ else _) = _
  split_ifs with hkind
  · rfl
  · have hnone : tables.search (kindOf model) = [] := by
      refine List.eq_nil_iff_forall_not_mem.mpr fun row hrow => hkind ?_
      obtain ⟨assignment, hmem, -, -, -, hsame, -⟩ := (mem_search _ _ _).mp hrow
      exact hsame ▸ tables.kinds assignment hmem
    have hempty : order.keys (tables.search (kindOf model)) = [] := by
      rw [hnone]
      exact (order.perm []).eq_nil
    rw [hempty]
    rfl

/-- What is found is there. -/
theorem assigned_of_found {tenantId : ℤ}
    (h : (loaded model tables order).customPropertyTenant key = some tenantId) :
    tables.Assigned (kindOf model) key tenantId := by
  rw [customPropertyTenant_eq] at h
  obtain ⟨row, hlast, rfl⟩ := Option.map_eq_some_iff.mp h
  obtain ⟨hmem, hkey⟩ := List.mem_filter.mp (List.mem_of_getLast? hlast)
  obtain rfl : row.key = key := by simpa using hkey
  exact mem_rows.mp hmem

/-- What is there is found, for some tenant. -/
theorem found_of_assigned {tenantId : ℤ}
    (h : tables.Assigned (kindOf model) key tenantId) (order : HashOrder) :
    ∃ found, (loaded model tables order).customPropertyTenant key = some found := by
  have hmem : (⟨key, tenantId⟩ : PropertyRow) ∈
      (order.keys (tables.search (kindOf model))).filter fun row => row.key = key :=
    List.mem_filter.mpr ⟨mem_rows.mpr h, decide_eq_true rfl⟩
  rw [customPropertyTenant_eq]
  rw [List.getLast?_eq_some_getLast (List.ne_nil_of_mem hmem), Option.map_some]
  exact ⟨_, rfl⟩

/-- A tenant that has the property is found, if its row comes last. -/
theorem exists_order {tenantId : ℤ} (h : tables.Assigned (kindOf model) key tenantId) :
    ∃ order, (loaded model tables order).customPropertyTenant key = some tenantId := by
  have hmem : (⟨key, tenantId⟩ : PropertyRow) ∈ tables.search (kindOf model) :=
    (mem_search _ _ _).mpr h
  obtain ⟨i, front, hlast⟩ := exists_rotated_last hmem
  refine ⟨rotated i, ?_⟩
  rw [customPropertyTenant_eq, hlast, List.filter_append, List.filter_singleton,
    decide_eq_true rfl, cond_true, List.getLast?_concat, Option.map_some]

theorem hasProperty_superadmin (h : model.administrator.isSuperadmin = true)
    (order : HashOrder) : hasProperty model tables order key = true ↔ Has model tables key := by
  have hhas : hasProperty model tables order key =
      ((loaded model tables order).customPropertyTenant key).isSome := by
    exact if_pos h
  rw [hhas, Has, if_pos h, Option.isSome_iff_exists]
  constructor
  · rintro ⟨tenantId, hfound⟩
    exact ⟨tenantId, assigned_of_found hfound⟩
  · rintro ⟨tenantId, hassigned⟩
    exact found_of_assigned hassigned order

theorem hasProperty_tenant (h : model.administrator.isSuperadmin = false)
    (order : HashOrder) : hasProperty model tables order key = true ↔
      (loaded model tables order).customPropertyTenant key = some model.administrator.tenantId := by
  have hhas : hasProperty model tables order key =
      decide ((loaded model tables order).customPropertyTenant key =
        some model.administrator.tenantId) := by
    refine if_neg ?_
    change ¬model.administrator.isSuperadmin = true
    rw [h]
    exact Bool.false_ne_true
  rw [hhas, decide_eq_true_iff]

/-- For one content of the tables. -/
theorem exact_iff_alone : (∀ order, hasProperty model tables order key = true ↔ Has model tables key) ↔
    Alone model tables key := by
  cases hadmin : model.administrator.isSuperadmin with
  | true => exact iff_of_true (hasProperty_superadmin hadmin) (.inl hadmin)
  | false =>
    have hhas : Has model tables key ↔
        tables.Assigned (kindOf model) key model.administrator.tenantId := by
      unfold Has
      rw [if_neg (by rw [hadmin]; exact Bool.false_ne_true)]
    simp only [hasProperty_tenant hadmin, hhas]
    constructor
    · intro h
      refine .inr (or_iff_not_imp_left.mpr fun hassigned tenantId hother => ?_)
      obtain ⟨order, horder⟩ := exists_order hother
      have hfound := (h order).mpr (not_not.mp hassigned)
      rw [horder] at hfound
      exact Option.some.inj hfound
    · rintro (hsuper | hnot | hown) order
      · rw [hadmin] at hsuper
        cases hsuper
      · exact iff_of_false (fun hfound => hnot (assigned_of_found hfound)) hnot
      · refine ⟨assigned_of_found, fun hassigned => ?_⟩
        obtain ⟨found, hfound⟩ := found_of_assigned hassigned order
        rw [hfound, hown found (assigned_of_found hfound)]

/-- The look-up is independent of other tenants if and only if, in either content of the tables, a
property that the own tenant has is not one of another tenant too. -/
theorem independent_iff (model : Model) (tables tables' : Tables) (key : Text) :
    Independent model tables tables' key ↔ Alone model tables key ∧
      (model.administrator.isSuperadmin = false →
        SameFor tables tables' model.administrator.tenantId → Alone model tables' key) := by
  unfold Independent
  rw [exact_iff_alone]
  refine and_congr_right fun halone => forall₂_congr fun hadmin hsame => ?_
  have hexact := exact_iff_alone.mpr halone
  have hhas : Has model tables key ↔ Has model tables' key := by
    unfold Has
    rw [if_neg (by rw [hadmin]; exact Bool.false_ne_true),
      if_neg (by rw [hadmin]; exact Bool.false_ne_true)]
    exact hsame (kindOf model) key
  rw [← exact_iff_alone]
  constructor
  · intro hstays order
    rw [← hstays order order, hexact order, hhas]
  · intro hexact' order order'
    rw [Bool.eq_iff_iff, hexact order, hexact' order', hhas]

/-- Two tenants with a property of the same name for virtual machines. -/
def sameName : Tables where
  properties := [⟨1, "color".toList, 3⟩, ⟨2, "color".toList, 4⟩]
  assignments := [⟨1, 1, "vm".toList⟩, ⟨2, 2, "vm".toList⟩]
  properties_nodup := by decide
  keys_nodup := by decide
  assignments_nodup := by decide
  pairs_nodup := by decide
  kinds := by decide
  references := by decide

def ofTenant : Model where
  administrator := { id := 5, tenantId := 3, acls := [], scope := [3] }
  qvdObject := "VM"
  typeOfAction := .list
  properties := []
  multitenant := true
  computeDefault := fun _ _ => .ok none
  computeValue := fun _ value => value

/-- The property of the other tenant comes last. -/
theorem other_tenant_hides : ¬Independent ofTenant sameName sameName "color".toList := by
  intro h
  have hhas : Has ofTenant sameName "color".toList :=
    ⟨⟨1, 1, "vm".toList⟩, List.mem_cons_self, ⟨1, "color".toList, 3⟩, List.mem_cons_self, rfl,
      by decide, rfl, rfl⟩
  exact absurd ((h.1 (rotated 0)).mpr hhas) (by decide +kernel)

end Lookup

end Qvd.PropertyTables
