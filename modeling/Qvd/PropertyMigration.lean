import Mathlib.Data.List.Sigma
import Mathlib.Data.Set.Basic
import Qvd.DumpUpgrade

/-!
The properties of a 3.6 dump in the tables of 4.0. `migrate_properties_from_36_to_40` numbers the
keys in Property_List, numbers the properties in QVD_Object_Property_List, and leaves in the tables
of the objects the values with these numbers. What a join of the new tables gives back, and whether
they keep the constraints of the current schema.
-/
namespace Qvd.PropertyMigration

open LineText DatabaseDump KeyedRows DumpUpgrade

/-! ### The purpose of the migration -/

section Purpose

def propertyList : Text := "Property_List".toList

def objectPropertyList : Text := "QVD_Object_Property_List".toList

def key : Text := "key".toList

def value : Text := "value".toList

def tenantId : Text := "tenant_id".toList

def propertyId : Text := "property_id".toList

def qvdObject : Text := "qvd_object".toList

/-- A dump of a 3.6 database, which does not have the new tables. -/
structure Dump where
  data : Data
  fresh : ∀ entry ∈ data, entry.1 ≠ propertyList ∧ entry.1 ≠ objectPropertyList

/-- A property of an object: the type and the id of the object, the key and the value. -/
structure Assigned where
  enum : Text
  objId : Option Text
  key : Option Text
  value : Option Text

/-- The properties in the old tables. -/
def original (data : Data) : Set Assigned :=
  {a | ∃ schema ∈ schemaToEnum, ∃ tuple ∈ tuplesOf schema.1 data,
    a = ⟨schema.2, tuple (objectId schema.2), tuple key, tuple value⟩}

/-- A foreign key to the id of another row. -/
def Refers (column : Text) (row other : Tuple) : Prop :=
  ∃ number, row column = some number ∧ other id = some number

/-- The properties in the new tables: a value row, its row in QVD_Object_Property_List, and the key
of that in Property_List. -/
def joined (data : Data) : Set Assigned :=
  {a | ∃ schema ∈ schemaToEnum, ∃ row ∈ tuplesOf schema.1 data,
    ∃ link ∈ tuplesOf objectPropertyList data, ∃ property ∈ tuplesOf propertyList data,
      Refers propertyId row link ∧ link qvdObject = some schema.2 ∧
        Refers propertyId link property ∧
          a = ⟨schema.2, row (objectId schema.2), property key, row value⟩}

/-- How many rows `custom_properties_set` finds for a key and a type of objects. -/
def linksOf (data : Data) (k enum : Text) : ℕ :=
  (tuplesOf objectPropertyList data).countP fun link =>
    decide (link qvdObject = some enum) &&
      (tuplesOf propertyList data).any fun property =>
        decide (property id = link propertyId) && decide (property key = some k)

/-- The rows have the columns, and no two of them agree in the columns of a unique constraint. -/
structure Sound (constraints : List (List Text)) (columns : List Text) (rows : List Tuple) :
    Prop where
  unique : ∀ constraint ∈ constraints, (rows.map fun row => constraint.map row).Nodup
  filled : ∀ row ∈ rows, ∀ column ∈ columns, (row column).isSome

/-- The constraints of the current schema. -/
structure Loadable (data : Data) : Prop where
  properties : Sound [[id], [key, tenantId]] [id, key, tenantId] (tuplesOf propertyList data)
  links : Sound [[id], [propertyId, qvdObject]] [id, propertyId, qvdObject]
    (tuplesOf objectPropertyList data)
  values : ∀ schema ∈ schemaToEnum, Sound [[objectId schema.2, propertyId]]
    [objectId schema.2, propertyId, value] (tuplesOf schema.1 data)
  properties_of_links : ∀ link ∈ tuplesOf objectPropertyList data,
    ∃ property ∈ tuplesOf propertyList data, Refers propertyId link property
  links_of_values : ∀ schema ∈ schemaToEnum, ∀ row ∈ tuplesOf schema.1 data,
    ∃ link ∈ tuplesOf objectPropertyList data, Refers propertyId row link

/-- Nothing is lost, and the result can be loaded. -/
structure Migrated (old new : Data) : Prop where
  joined : joined new = original old
  one_link : ∀ a ∈ original old, ∀ k, a.key = some k → linksOf new k a.enum = 1
  loadable : Loadable new
  others : new.filter (·.1 ∉ generatedTables) = old.filter (·.1 ∉ generatedTables)

/-- The properties have a key, a value and an object. -/
def Complete (data : Data) : Prop :=
  ∀ property ∈ properties data,
    property.key.isSome ∧ property.value.isSome ∧ property.objId.isSome

/-- No two objects of one type have a property of the same key. -/
def OneObjectPerKey (data : Data) : Prop :=
  ((properties data).map fun property => (property.key, property.enum)).Nodup

end Purpose

/-! ### The numbers of the keys -/

section Numbers

variable {ps : List Property}

def keyName (property : Property) : Text := property.key.getD []

theorem propertyIds_append (property : Property) :
    propertyIds (ps ++ [property]) =
      if ((propertyIds ps).lookup (keyName property)).isNone then
        propertyIds ps ++ [(keyName property, (propertyIds ps).length + 1)]
      else propertyIds ps := by
  unfold propertyIds
  rw [List.foldl_append]
  rfl

theorem lookup_isNone_iff {ids : List (Text × ℕ)} {k : Text} :
    (ids.lookup k).isNone ↔ k ∉ ids.map (·.1) := by
  rw [Option.isNone_iff_eq_none, List.lookup_eq_none_iff, List.mem_map]
  constructor
  · rintro h ⟨entry, hmem, rfl⟩
    exact bne_iff_ne.mp (h entry hmem) rfl
  · exact fun h entry hmem => bne_iff_ne.mpr fun hsame => h ⟨entry, hmem, hsame.symm⟩

/-- The numbers count up from one. -/
theorem map_snd_propertyIds (ps : List Property) :
    (propertyIds ps).map (·.2) = List.range' 1 (propertyIds ps).length := by
  induction ps using List.reverseRecOn with
  | nil => rfl
  | append_singleton ps property ih =>
    rw [propertyIds_append]
    split
    · rw [List.map_append, ih, List.length_append, List.map_singleton, List.length_singleton,
        List.range'_1_concat, Nat.add_comm]
    · exact ih

theorem nodup_keys_propertyIds (ps : List Property) : ((propertyIds ps).map (·.1)).Nodup := by
  induction ps using List.reverseRecOn with
  | nil => exact List.nodup_nil
  | append_singleton ps property ih =>
    rw [propertyIds_append]
    split
    · rename_i hnew
      rw [List.map_append, List.nodup_append']
      refine ⟨ih, List.nodup_singleton _, fun k hold hk => ?_⟩
      rw [List.mem_singleton.mp hk] at hold
      exact lookup_isNone_iff.mp hnew hold
    · exact ih

theorem mem_keys_propertyIds {property : Property} (h : property ∈ ps) :
    keyName property ∈ (propertyIds ps).map (·.1) := by
  induction ps using List.reverseRecOn with
  | nil => cases h
  | append_singleton ps last ih =>
    rw [propertyIds_append]
    rcases List.mem_append.mp h with hold | hlast
    · split
      · rw [List.map_append]
        exact List.mem_append_left _ (ih hold)
      · exact ih hold
    · obtain rfl := List.mem_singleton.mp hlast
      split
      · rw [List.map_append]
        exact List.mem_append_right _ List.mem_cons_self
      · rename_i hold
        exact Classical.not_not.mp fun hnot => hold (lookup_isNone_iff.mpr hnot)

theorem nodup_numbers_propertyIds (ps : List Property) : ((propertyIds ps).map (·.2)).Nodup := by
  rw [map_snd_propertyIds]
  exact List.nodup_range'

/-- In a list of pairs with different keys the lookup finds what is there. -/
theorem lookup_eq_some_iff_mem {ids : List (Text × ℕ)} (h : (ids.map (·.1)).Nodup) {k : Text}
    {n : ℕ} : ids.lookup k = some n ↔ (k, n) ∈ ids := by
  induction ids with
  | nil => simp
  | cons entry ids ih =>
    obtain ⟨hfirst, hrest⟩ := List.nodup_cons.mp h
    obtain ⟨k', n'⟩ := entry
    rw [List.lookup_cons, List.mem_cons, Prod.mk.injEq]
    by_cases hk : k = k'
    · subst hk
      have hnot : (k, n) ∉ ids := fun hmem => hfirst (List.mem_map_of_mem (f := (·.1)) hmem)
      simp [hnot, eq_comm]
    · simp only [beq_false_of_ne hk, hk, false_and, false_or]
      exact ih hrest

theorem exists_number {property : Property} (h : property ∈ ps) :
    ∃ n, (propertyIds ps).lookup (keyName property) = some n ∧
      (keyName property, n) ∈ propertyIds ps := by
  obtain ⟨⟨k, n⟩, hmem, hk⟩ := List.mem_map.mp (mem_keys_propertyIds h)
  obtain rfl : k = keyName property := hk
  exact ⟨n, (lookup_eq_some_iff_mem (nodup_keys_propertyIds ps)).mpr hmem, hmem⟩

/-- A number has one key. -/
theorem key_of_number {k k' : Text} {n : ℕ} (h : (k, n) ∈ propertyIds ps)
    (h' : (k', n) ∈ propertyIds ps) : k = k' :=
  congrArg Prod.fst (List.inj_on_of_nodup_map (nodup_numbers_propertyIds ps) h h' rfl)

end Numbers

/-! ### The tables after the migration -/

section Tables

variable (order : HashOrder) (data : Data)

def newProperty (entry : Text × ℕ) : Tuple :=
  hash [(id, some (digits entry.2)), (key, some entry.1), (tenantId, some ['1'])]

/-- The number of a property's key. -/
def numberOf (ps : List Property) (property : Property) : Option Text :=
  ((propertyIds ps).lookup (keyName property)).map digits

def newLink (ps : List Property) (numbered : Property × ℕ) : Tuple :=
  hash [(id, some (digits (numbered.2 + 1))), (propertyId, numberOf ps numbered.1),
    (qvdObject, some numbered.1.enum)]

def newValue (numbered : Property × ℕ) : Tuple :=
  hash [(objectId numbered.1.enum, numbered.1.objId), (value, numbered.1.value),
    (propertyId, some (digits (numbered.2 + 1)))]

/-- The numbered properties of a type of objects. -/
def propertiesOf (enum : Text) : List (Property × ℕ) :=
  (properties data).zipIdx.filter (·.1.enum = enum)

def valueSections : Data :=
  (order.keys schemaToEnum).map fun schema =>
    (schema.1, (propertiesOf data schema.2).map newValue)

theorem migrateProperties_sections : migrateProperties order data =
    data.filter (fun entry => (schemaToEnum.lookup entry.1).isNone) ++
      [(propertyList, (order.keys (propertyIds (properties data))).map newProperty),
        (objectPropertyList, (properties data).zipIdx.map (newLink (properties data)))] ++
      valueSections order data := by
  unfold migrateProperties valueSections
  dsimp only
  rw [List.mapIdx_eq_zipIdx_map]
  refine congrArg (_ ++ ·) (List.map_congr_left fun schema _ => ?_)
  refine congrArg (Prod.mk schema.1) (List.map_congr_left fun numbered hnumbered => ?_)
  unfold newValue
  rw [of_decide_eq_true (List.mem_filter.mp hnumbered).2]
  rfl

theorem nodup_valueSections : ((valueSections order data).map (·.1)).Nodup := by
  unfold valueSections
  rw [List.map_map]
  have hnodup : (schemaToEnum.map (·.1)).Nodup := by decide
  exact (((order.perm schemaToEnum).map (·.1)).nodup_iff).mpr hnodup

theorem mem_schemas_valueSections {entry : Text × List Tuple}
    (h : entry ∈ valueSections order data) : entry.1 ∈ schemaToEnum.map (·.1) := by
  obtain ⟨schema, hschema, rfl⟩ := List.mem_map.mp h
  exact List.mem_map_of_mem ((order.perm _).mem_iff.mp hschema)

variable {data}

/-- The new tables do not have rows from the dump. -/
theorem tuplesOf_kept_eq_nil (dump : Dump) {schema : Text} (h : schema ∈ generatedTables) :
    tuplesOf schema (dump.data.filter fun entry => (schemaToEnum.lookup entry.1).isNone) = [] := by
  refine tuplesOf_eq_nil fun entry hentry hsame => ?_
  obtain ⟨hmem, hnone⟩ := List.mem_filter.mp hentry
  obtain ⟨hproperty, hlink⟩ := dump.fresh entry hmem
  rcases List.mem_cons.mp h with rfl | h
  · exact hproperty hsame
  rcases List.mem_cons.mp h with rfl | h
  · exact hlink hsame
  · obtain ⟨pair, hpair, hname⟩ := List.mem_map.mp h
    rw [Option.isNone_iff_eq_none, List.lookup_eq_none_iff] at hnone
    exact bne_iff_ne.mp (hnone pair hpair) (hsame.trans hname.symm)

theorem tuplesOf_valueSections_eq_nil {schema : Text} (h : schema ∉ schemaToEnum.map (·.1)) :
    tuplesOf schema (valueSections order data) = [] :=
  tuplesOf_eq_nil fun _ hentry hsame => h (hsame ▸ mem_schemas_valueSections order data hentry)

theorem tuplesOf_propertyList (dump : Dump) :
    tuplesOf propertyList (migrateProperties order dump.data) =
      (order.keys (propertyIds (properties dump.data))).map newProperty := by
  have hne : objectPropertyList ≠ propertyList := by decide
  rw [migrateProperties_sections, tuplesOf_append, tuplesOf_append,
    tuplesOf_kept_eq_nil dump (by decide), tuplesOf_valueSections_eq_nil order (by decide),
    tuplesOf_cons, tuplesOf_singleton, if_pos rfl, if_neg hne]
  rw [List.nil_append, List.append_nil, List.append_nil]

theorem tuplesOf_objectPropertyList (dump : Dump) :
    tuplesOf objectPropertyList (migrateProperties order dump.data) =
      (properties dump.data).zipIdx.map (newLink (properties dump.data)) := by
  have hne : propertyList ≠ objectPropertyList := by decide
  rw [migrateProperties_sections, tuplesOf_append, tuplesOf_append,
    tuplesOf_kept_eq_nil dump (by decide), tuplesOf_valueSections_eq_nil order (by decide),
    tuplesOf_cons, tuplesOf_singleton, if_neg hne, if_pos rfl]
  rw [List.nil_append, List.append_nil, List.nil_append]

theorem tuplesOf_values (dump : Dump) {schema : Text × Text} (h : schema ∈ schemaToEnum) :
    tuplesOf schema.1 (migrateProperties order dump.data) =
      (propertiesOf dump.data schema.2).map newValue := by
  have hne : ∀ schema ∈ schemaToEnum,
      propertyList ≠ schema.1 ∧ objectPropertyList ≠ schema.1 := by decide
  have hmem : (schema.1, (propertiesOf dump.data schema.2).map newValue) ∈
      valueSections order dump.data :=
    List.mem_map.mpr ⟨schema, (order.perm _).mem_iff.mpr h, rfl⟩
  have hgenerated : schema.1 ∈ generatedTables :=
    List.mem_cons_of_mem _ (List.mem_cons_of_mem _ (List.mem_map_of_mem h))
  rw [migrateProperties_sections, tuplesOf_append, tuplesOf_append,
    tuplesOf_kept_eq_nil dump hgenerated, tuplesOf_cons, tuplesOf_singleton,
    if_neg (hne schema h).1, if_neg (hne schema h).2,
    tuplesOf_of_mem (nodup_valueSections order dump.data) hmem]
  rfl

/-- The other sections stay as they are. -/
theorem others_migrateProperties :
    (migrateProperties order data).filter (·.1 ∉ generatedTables) =
      data.filter (·.1 ∉ generatedTables) := by
  have hvalues : (valueSections order data).filter (·.1 ∉ generatedTables) = [] := by
    refine List.filter_eq_nil_iff.mpr fun entry hentry hother => of_decide_eq_true hother ?_
    exact List.mem_cons_of_mem _ (List.mem_cons_of_mem _
      (mem_schemas_valueSections order data hentry))
  have hlists : propertyList ∈ generatedTables ∧ objectPropertyList ∈ generatedTables := by decide
  have hnew : ∀ rows links : List Tuple,
      [(propertyList, rows), (objectPropertyList, links)].filter (·.1 ∉ generatedTables) = [] := by
    intro rows links
    simp [hlists.1, hlists.2]
  rw [migrateProperties_sections, List.filter_append, List.filter_append, hnew, hvalues,
    List.append_nil, List.append_nil, List.filter_filter]
  refine List.filter_congr fun entry _ => ?_
  by_cases h : entry.1 ∈ generatedTables
  · simp [h]
  · have hnone : (schemaToEnum.lookup entry.1).isNone := lookup_isNone_of_notMem fun hmem =>
      h (List.mem_cons_of_mem _ (List.mem_cons_of_mem _ hmem))
    simp [h, hnone]

end Tables

/-! ### The columns of the new rows -/

section Columns

variable (ps : List Property) (entry : Text × ℕ) (numbered : Property × ℕ)

@[simp] theorem newProperty_id : newProperty entry id = some (digits entry.2) := rfl

@[simp] theorem newProperty_key : newProperty entry key = some entry.1 := rfl

@[simp] theorem newProperty_tenantId : newProperty entry tenantId = some ['1'] := rfl

@[simp] theorem newLink_id : newLink ps numbered id = some (digits (numbered.2 + 1)) := rfl

@[simp] theorem newLink_propertyId : newLink ps numbered propertyId = numberOf ps numbered.1 := rfl

@[simp] theorem newLink_qvdObject : newLink ps numbered qvdObject = some numbered.1.enum := rfl

@[simp] theorem newValue_objectId :
    newValue numbered (objectId numbered.1.enum) = numbered.1.objId := hash_self _ _ _

variable {numbered}

theorem objectId_spec : ∀ schema ∈ schemaToEnum,
    objectId schema.2 ≠ value ∧ objectId schema.2 ≠ propertyId := by decide

theorem newValue_value {schema : Text × Text} (h : schema ∈ schemaToEnum)
    (henum : numbered.1.enum = schema.2) : newValue numbered value = numbered.1.value := by
  unfold newValue
  rw [henum, hash_of_ne (objectId_spec schema h).1, hash_self]

theorem newValue_propertyId {schema : Text × Text} (h : schema ∈ schemaToEnum)
    (henum : numbered.1.enum = schema.2) :
    newValue numbered propertyId = some (digits (numbered.2 + 1)) := by
  unfold newValue
  rw [henum, hash_of_ne (objectId_spec schema h).2, hash_of_ne (by decide), hash_self]

end Columns

/-! ### The join -/

section Join

variable (order : HashOrder) (dump : Dump) {data : Data}

theorem mem_properties {property : Property} : property ∈ properties data ↔
    ∃ schema ∈ schemaToEnum, ∃ tuple ∈ tuplesOf schema.1 data,
      property = ⟨tuple key, tuple value, schema.2, tuple (objectId schema.2)⟩ := by
  have hlookup : ∀ schema ∈ schemaToEnum, schemaToEnum.lookup schema.1 = some schema.2 := by decide
  unfold properties
  rw [List.mem_flatMap]
  constructor
  · rintro ⟨entry, hentry, hin⟩
    split at hin
    · rename_i enum hfound
      obtain ⟨tuple, htuple, rfl⟩ := List.mem_map.mp hin
      obtain ⟨front, back, hsplit, -⟩ := List.lookup_eq_some_iff.mp hfound
      refine ⟨(entry.1, enum), hsplit ▸ List.mem_append_right _ List.mem_cons_self, tuple, ?_, rfl⟩
      exact List.mem_flatMap.mpr ⟨entry, List.mem_filter.mpr ⟨hentry, decide_eq_true rfl⟩, htuple⟩
    · cases hin
  · rintro ⟨schema, hschema, tuple, htuple, rfl⟩
    obtain ⟨entry, hentry, hsame, hin⟩ := mem_of_tuplesOf htuple
    refine ⟨entry, hentry, ?_⟩
    rw [hsame, hlookup schema hschema]
    exact List.mem_map_of_mem hin

theorem mem_original {a : Assigned} : a ∈ original data ↔
    ∃ property ∈ properties data,
      a = ⟨property.enum, property.objId, property.key, property.value⟩ := by
  constructor
  · rintro ⟨schema, hschema, tuple, htuple, rfl⟩
    exact ⟨_, mem_properties.mpr ⟨schema, hschema, tuple, htuple, rfl⟩, rfl⟩
  · rintro ⟨property, hproperty, rfl⟩
    obtain ⟨schema, hschema, tuple, htuple, rfl⟩ := mem_properties.mp hproperty
    exact ⟨schema, hschema, tuple, htuple, rfl⟩

theorem mem_propertiesOf {enum : Text} {numbered : Property × ℕ} :
    numbered ∈ propertiesOf data enum ↔
      numbered ∈ (properties data).zipIdx ∧ numbered.1.enum = enum := by
  unfold propertiesOf
  rw [List.mem_filter, decide_eq_true_eq]

theorem exists_numbered {property : Property} (h : property ∈ properties data) :
    ∃ index, (property, index) ∈ (properties data).zipIdx := by
  obtain ⟨index, hindex⟩ := List.mem_iff_getElem?.mp h
  exact ⟨index, List.mem_zipIdx_iff_getElem?.mpr hindex⟩

/-- An index has one property. -/
theorem property_of_index {numbered other : Property × ℕ}
    (h : numbered ∈ (properties data).zipIdx) (hother : other ∈ (properties data).zipIdx)
    (hsame : numbered.2 = other.2) : numbered = other := by
  have hfirst := List.mem_zipIdx_iff_getElem?.mp h
  rw [hsame, List.mem_zipIdx_iff_getElem?.mp hother] at hfirst
  exact Prod.ext (Option.some.inj hfirst).symm hsame

theorem exists_schema {property : Property} (h : property ∈ properties data) :
    ∃ schema ∈ schemaToEnum, property.enum = schema.2 := by
  obtain ⟨schema, hschema, tuple, -, rfl⟩ := mem_properties.mp h
  exact ⟨schema, hschema, rfl⟩

/-- The row of a key in Property_List. -/
theorem mem_propertyList {row : Tuple} :
    row ∈ tuplesOf propertyList (migrateProperties order dump.data) ↔
      ∃ entry ∈ propertyIds (properties dump.data), newProperty entry = row := by
  rw [tuplesOf_propertyList, List.mem_map]
  exact exists_congr fun entry => and_congr_left fun _ => (order.perm _).mem_iff

/-- The link of a property refers to the row of its key, and to no other. -/
theorem refers_newLink_iff {numbered : Property × ℕ} (h : numbered.1 ∈ properties data)
    {entry : Text × ℕ} (hentry : entry ∈ propertyIds (properties data)) :
    Refers propertyId (newLink (properties data) numbered) (newProperty entry) ↔
      entry.1 = keyName numbered.1 := by
  obtain ⟨n, hlookup, hmem⟩ := exists_number h
  unfold Refers
  rw [newLink_propertyId, newProperty_id]
  unfold numberOf
  rw [hlookup]
  constructor
  · rintro ⟨_, hlink, hproperty⟩
    have hsame : n = entry.2 :=
      digits_inj (Option.some.inj (hlink.trans hproperty.symm))
    subst hsame
    exact key_of_number hentry hmem
  · intro hkey
    have hfound := (lookup_eq_some_iff_mem (nodup_keys_propertyIds _)).mpr hentry
    rw [hkey, hlookup] at hfound
    exact ⟨_, rfl, by rw [Option.some.inj hfound]⟩

/-- A value row refers to the link of the same property. -/
theorem refers_newValue_iff {schema : Text × Text} (hschema : schema ∈ schemaToEnum)
    {numbered other : Property × ℕ} (h : numbered ∈ propertiesOf data schema.2)
    (hother : other ∈ (properties data).zipIdx) :
    Refers propertyId (newValue numbered) (newLink (properties data) other) ↔
      other = numbered := by
  obtain ⟨hmem, henum⟩ := mem_propertiesOf.mp h
  unfold Refers
  rw [newValue_propertyId hschema henum, newLink_id]
  constructor
  · rintro ⟨_, hvalue, hlink⟩
    have hsame := digits_inj (Option.some.inj (hlink.trans hvalue.symm))
    exact property_of_index hother hmem (Nat.succ.inj hsame)
  · rintro rfl
    exact ⟨_, rfl, rfl⟩

/-- The join gives back every property under the name of its key. -/
theorem mem_joined {a : Assigned} : a ∈ joined (migrateProperties order dump.data) ↔
    ∃ property ∈ properties dump.data,
      a = ⟨property.enum, property.objId, some (keyName property), property.value⟩ := by
  constructor
  · rintro ⟨schema, hschema, row, hrow, link, hlink, property, hproperty, hvalue, -, hkey, rfl⟩
    rw [tuplesOf_values order dump hschema] at hrow
    rw [tuplesOf_objectPropertyList] at hlink
    obtain ⟨numbered, hnumbered, rfl⟩ := List.mem_map.mp hrow
    obtain ⟨other, hother, rfl⟩ := List.mem_map.mp hlink
    obtain ⟨entry, hentry, rfl⟩ := (mem_propertyList order dump).mp hproperty
    obtain rfl := (refers_newValue_iff hschema hnumbered hother).mp hvalue
    obtain ⟨-, henum⟩ := mem_propertiesOf.mp hnumbered
    have hmem := List.fst_mem_of_mem_zipIdx hother
    refine ⟨other.1, hmem, ?_⟩
    rw [← henum, newValue_objectId, newValue_value hschema henum, newProperty_key,
      (refers_newLink_iff hmem hentry).mp hkey]
  · rintro ⟨property, hmem, rfl⟩
    obtain ⟨schema, hschema, henum⟩ := exists_schema hmem
    obtain ⟨index, hindex⟩ := exists_numbered hmem
    have hof : (property, index) ∈ propertiesOf dump.data schema.2 :=
      mem_propertiesOf.mpr ⟨hindex, henum⟩
    obtain ⟨n, -, hentry⟩ := exists_number hmem
    refine ⟨schema, hschema, newValue (property, index), ?_,
      newLink (properties dump.data) (property, index), ?_, newProperty (keyName property, n),
      (mem_propertyList order dump).mpr ⟨_, hentry, rfl⟩,
      (refers_newValue_iff hschema hof hindex).mpr rfl, congrArg some henum,
      (refers_newLink_iff hmem hentry).mpr rfl, ?_⟩
    · rw [tuplesOf_values order dump hschema]
      exact List.mem_map_of_mem hof
    · rw [tuplesOf_objectPropertyList]
      exact List.mem_map_of_mem hindex
    · rw [← henum, newProperty_key, newValue_value hschema henum]
      exact congrArg (Assigned.mk _ · _ _) (newValue_objectId (property, index)).symm

/-- The join is the original if all keys are defined. -/
theorem joined_eq_iff : joined (migrateProperties order dump.data) = original dump.data ↔
    ∀ property ∈ properties dump.data, property.key.isSome := by
  constructor
  · intro h property hmem
    have hin := mem_original.mpr ⟨property, hmem, rfl⟩
    rw [← h] at hin
    obtain ⟨other, -, hsame⟩ := (mem_joined order dump).mp hin
    rw [(Assigned.mk.inj hsame).2.2.1]
    rfl
  · intro h
    ext a
    rw [mem_joined, mem_original]
    refine exists_congr fun property => and_congr_right fun hmem => ?_
    have hkey : some (keyName property) = property.key := by
      obtain ⟨k, hk⟩ := Option.isSome_iff_exists.mp (h property hmem)
      unfold keyName
      rw [hk]
      rfl
    rw [hkey]

end Join

/-! ### The constraints -/

section Constraints

variable (order : HashOrder) (dump : Dump)

theorem nodup_propertyIds (ps : List Property) : (propertyIds ps).Nodup :=
  (nodup_keys_propertyIds ps).of_map

theorem nodup_numbered (data : Data) : (properties data).zipIdx.Nodup :=
  (List.nodup_zipIdx_map_snd _).of_map

theorem sound_propertyList : Sound [[id], [key, tenantId]] [id, key, tenantId]
    (tuplesOf propertyList (migrateProperties order dump.data)) := by
  rw [tuplesOf_propertyList]
  have hnodup := ((order.perm (propertyIds (properties dump.data))).nodup_iff).mpr
    (nodup_propertyIds _)
  refine ⟨fun constraint hmem => ?_, fun row hrow => ?_⟩
  · rw [List.map_map]
    refine hnodup.map_on fun entry hentry other hother hsame => ?_
    have hentry := (order.perm _).mem_iff.mp hentry
    have hother := (order.perm _).mem_iff.mp hother
    rcases List.mem_cons.mp hmem with rfl | hmem
    · have hids := digits_inj (Option.some.inj (List.cons.inj hsame).1)
      exact List.inj_on_of_nodup_map (nodup_numbers_propertyIds _) hentry hother hids
    · obtain rfl := List.mem_singleton.mp hmem
      have hkeys := Option.some.inj (List.cons.inj hsame).1
      exact List.inj_on_of_nodup_map (nodup_keys_propertyIds _) hentry hother hkeys
  · obtain ⟨entry, -, rfl⟩ := List.mem_map.mp hrow
    simp

/-- The keys of properties have the same number exactly where they are the same. -/
theorem numberOf_eq_iff {ps : List Property} {property other : Property} (h : property ∈ ps)
    (hother : other ∈ ps) :
    numberOf ps property = numberOf ps other ↔ keyName property = keyName other := by
  obtain ⟨n, hlookup, hmem⟩ := exists_number h
  obtain ⟨n', hlookup', hmem'⟩ := exists_number hother
  constructor
  · unfold numberOf
    rw [hlookup, hlookup']
    intro hsame
    obtain rfl := digits_inj (Option.some.inj hsame)
    exact key_of_number hmem hmem'
  · intro hkey
    unfold numberOf
    rw [hkey]

theorem keyName_eq_iff {property : Property} (h : property.key.isSome) {k : Text} :
    keyName property = k ↔ property.key = some k := by
  obtain ⟨name, hname⟩ := Option.isSome_iff_exists.mp h
  unfold keyName
  rw [hname, Option.some.injEq]
  rfl

theorem nodup_map_congr {α β γ : Type} {l : List α} {f : α → β} {g : α → γ}
    (h : ∀ a ∈ l, ∀ b ∈ l, f a = f b ↔ g a = g b) : (l.map f).Nodup ↔ (l.map g).Nodup := by
  unfold List.Nodup
  rw [List.pairwise_map, List.pairwise_map]
  exact List.Pairwise.iff_of_mem fun ha hb => not_congr (h _ ha _ hb)

theorem map_fst_zipIdx {α β : Type} (l : List α) (f : α → β) :
    l.zipIdx.map (fun numbered => f numbered.1) = l.map f := by
  conv_rhs => rw [← List.zipIdx_map_fst 0 l, List.map_map]
  rfl

/-- The unique constraint of QVD_Object_Property_List. -/
theorem nodup_links_iff (h : Complete dump.data) :
    ((tuplesOf objectPropertyList (migrateProperties order dump.data)).map fun row =>
      [propertyId, qvdObject].map row).Nodup ↔ OneObjectPerKey dump.data := by
  have hrows : (tuplesOf objectPropertyList (migrateProperties order dump.data)).map
      (fun row => [propertyId, qvdObject].map row) =
        (properties dump.data).map fun property =>
          [numberOf (properties dump.data) property, some property.enum] := by
    rw [tuplesOf_objectPropertyList, List.map_map, ← map_fst_zipIdx (properties dump.data)]
    rfl
  rw [hrows]
  refine nodup_map_congr fun property hproperty other hother => ?_
  have hkeys : keyName property = keyName other ↔ property.key = other.key := by
    rw [keyName_eq_iff (h property hproperty).1,
      ← (keyName_eq_iff (h other hother).1).mp rfl]
  rw [List.cons.injEq, List.cons.injEq, Option.some.injEq,
    numberOf_eq_iff hproperty hother, hkeys, Prod.mk.injEq]
  simp

theorem sound_links_iff (h : Complete dump.data) :
    Sound [[id], [propertyId, qvdObject]] [id, propertyId, qvdObject]
      (tuplesOf objectPropertyList (migrateProperties order dump.data)) ↔
        OneObjectPerKey dump.data := by
  rw [← nodup_links_iff order dump h]
  refine ⟨fun hsound => hsound.unique _ (List.mem_cons_of_mem _ List.mem_cons_self),
    fun hnodup => ⟨fun constraint hmem => ?_, fun row hrow => ?_⟩⟩
  · rcases List.mem_cons.mp hmem with rfl | hmem
    · rw [tuplesOf_objectPropertyList, List.map_map]
      refine (nodup_numbered _).map_on fun numbered hnumbered other hother hsame => ?_
      have hids := digits_inj (Option.some.inj (List.cons.inj hsame).1)
      exact property_of_index hnumbered hother (Nat.succ.inj hids)
    · obtain rfl := List.mem_singleton.mp hmem
      exact hnodup
  · rw [tuplesOf_objectPropertyList] at hrow
    obtain ⟨numbered, hnumbered, rfl⟩ := List.mem_map.mp hrow
    obtain ⟨n, hlookup, -⟩ := exists_number (List.fst_mem_of_mem_zipIdx hnumbered)
    simp [numberOf, hlookup]

/-- The values have their columns if the properties have them. -/
theorem sound_values_iff : (∀ schema ∈ schemaToEnum, Sound [[objectId schema.2, propertyId]]
      [objectId schema.2, propertyId, value]
      (tuplesOf schema.1 (migrateProperties order dump.data))) ↔
    ∀ property ∈ properties dump.data, property.value.isSome ∧ property.objId.isSome := by
  constructor
  · intro h property hmem
    obtain ⟨schema, hschema, henum⟩ := exists_schema hmem
    obtain ⟨index, hindex⟩ := exists_numbered hmem
    have hrow : newValue (property, index) ∈
        tuplesOf schema.1 (migrateProperties order dump.data) := by
      rw [tuplesOf_values order dump hschema]
      exact List.mem_map_of_mem (mem_propertiesOf.mpr ⟨hindex, henum⟩)
    have hfilled := (h schema hschema).filled _ hrow
    rw [← henum] at hfilled
    constructor
    · have hvalue : newValue (property, index) value = property.value :=
        newValue_value hschema henum
      rw [← hvalue]
      exact hfilled value (by simp)
    · rw [← newValue_objectId (property, index)]
      exact hfilled _ List.mem_cons_self
  · intro h schema hschema
    rw [tuplesOf_values order dump hschema]
    refine ⟨fun constraint hmem => ?_, fun row hrow => ?_⟩
    · obtain rfl := List.mem_singleton.mp hmem
      rw [List.map_map]
      refine ((nodup_numbered _).filter _).map_on fun numbered hnumbered other hother hsame => ?_
      obtain ⟨hmem, henum⟩ := mem_propertiesOf.mp hnumbered
      obtain ⟨hmem', henum'⟩ := mem_propertiesOf.mp hother
      have hids := (List.cons.inj (List.cons.inj hsame).2).1
      rw [newValue_propertyId hschema henum, newValue_propertyId hschema henum'] at hids
      exact property_of_index hmem hmem' (Nat.succ.inj (digits_inj (Option.some.inj hids)))
    · obtain ⟨numbered, hnumbered, rfl⟩ := List.mem_map.mp hrow
      obtain ⟨hmem, henum⟩ := mem_propertiesOf.mp hnumbered
      obtain ⟨hvalue, hobject⟩ := h _ (List.fst_mem_of_mem_zipIdx hmem)
      have hobject' := newValue_objectId numbered
      rw [henum] at hobject'
      simp [hobject', newValue_value hschema henum, newValue_propertyId hschema henum, hvalue,
        hobject]

/-- The new rows refer to rows that are there. -/
theorem references :
    (∀ link ∈ tuplesOf objectPropertyList (migrateProperties order dump.data),
      ∃ property ∈ tuplesOf propertyList (migrateProperties order dump.data),
        Refers propertyId link property) ∧
    ∀ schema ∈ schemaToEnum, ∀ row ∈ tuplesOf schema.1 (migrateProperties order dump.data),
      ∃ link ∈ tuplesOf objectPropertyList (migrateProperties order dump.data),
        Refers propertyId row link := by
  rw [tuplesOf_objectPropertyList]
  constructor
  · intro link hlink
    obtain ⟨numbered, hnumbered, rfl⟩ := List.mem_map.mp hlink
    have hmem := List.fst_mem_of_mem_zipIdx hnumbered
    obtain ⟨n, -, hentry⟩ := exists_number hmem
    exact ⟨_, (mem_propertyList order dump).mpr ⟨_, hentry, rfl⟩,
      (refers_newLink_iff hmem hentry).mpr rfl⟩
  · intro schema hschema row hrow
    rw [tuplesOf_values order dump hschema] at hrow
    obtain ⟨numbered, hnumbered, rfl⟩ := List.mem_map.mp hrow
    have hmem := (mem_propertiesOf.mp hnumbered).1
    exact ⟨_, List.mem_map_of_mem hmem, (refers_newValue_iff hschema hnumbered hmem).mpr rfl⟩

theorem loadable_iff (h : Complete dump.data) :
    Loadable (migrateProperties order dump.data) ↔ OneObjectPerKey dump.data := by
  rw [← sound_links_iff order dump h]
  refine ⟨Loadable.links, fun hlinks => ?_⟩
  obtain ⟨hproperties, hrows⟩ := references order dump
  exact ⟨sound_propertyList order dump, hlinks,
    (sound_values_iff order dump).mpr fun property hmem => (h property hmem).2, hproperties, hrows⟩

end Constraints

/-! ### The migration as a whole -/

section Whole

variable (order : HashOrder) (dump : Dump)

/-- The rows that are found for a key and a type are those of its properties. -/
theorem linksOf_eq (k enum : Text) : linksOf (migrateProperties order dump.data) k enum =
    (properties dump.data).countP fun property =>
      decide (property.enum = enum) && decide (keyName property = k) := by
  unfold linksOf
  conv_rhs => rw [← List.zipIdx_map_fst 0 (properties dump.data)]
  rw [tuplesOf_objectPropertyList, List.countP_map, List.countP_map]
  refine List.countP_congr fun numbered hnumbered => ?_
  have hmem := List.fst_mem_of_mem_zipIdx hnumbered
  rw [Function.comp_apply, Function.comp_apply, Bool.and_eq_true, Bool.and_eq_true,
    decide_eq_true_eq, decide_eq_true_eq, decide_eq_true_eq, newLink_qvdObject,
    Option.some.injEq, List.any_eq_true]
  refine and_congr_right fun _ => ?_
  constructor
  · rintro ⟨row, hrow, hboth⟩
    obtain ⟨entry, hentry, rfl⟩ := (mem_propertyList order dump).mp hrow
    obtain ⟨hid, hkey⟩ := (Bool.and_eq_true _ _).mp hboth
    have hrefers : Refers propertyId (newLink (properties dump.data) numbered)
        (newProperty entry) := ⟨_, (of_decide_eq_true hid).symm, rfl⟩
    rw [← (refers_newLink_iff hmem hentry).mp hrefers]
    exact Option.some.inj (of_decide_eq_true hkey)
  · rintro rfl
    obtain ⟨n, -, hentry⟩ := exists_number hmem
    obtain ⟨_, hlink, hproperty⟩ := (refers_newLink_iff hmem hentry).mpr rfl
    refine ⟨_, (mem_propertyList order dump).mpr ⟨_, hentry, rfl⟩, (Bool.and_eq_true _ _).mpr ?_⟩
    exact ⟨decide_eq_true (hproperty.trans hlink.symm), decide_eq_true rfl⟩

theorem linksOf_eq_one (h : Complete dump.data) (hnodup : OneObjectPerKey dump.data)
    {a : Assigned} (ha : a ∈ original dump.data) {k : Text} (hk : a.key = some k) :
    linksOf (migrateProperties order dump.data) k a.enum = 1 := by
  obtain ⟨property, hmem, rfl⟩ := mem_original.mp ha
  have hcount := (countP_eq_one_iff hnodup (some k, property.enum)).mpr
    ⟨property, hmem, Prod.ext hk rfl⟩
  rw [linksOf_eq, ← hcount]
  refine List.countP_congr fun other hother => ?_
  rw [Bool.and_eq_true, decide_eq_true_eq, decide_eq_true_eq, decide_eq_true_eq,
    keyName_eq_iff (h other hother).1, Prod.mk.injEq, and_comm]

/-- Whatever the order of the hashes, the migration does what it should exactly where no two
objects of one type have a property of the same key, and no property lacks a column. -/
theorem migrated_iff : Migrated dump.data (migrateProperties order dump.data) ↔
    Complete dump.data ∧ OneObjectPerKey dump.data := by
  constructor
  · intro h
    have hkeys := (joined_eq_iff order dump).mp h.joined
    have hvalues := (sound_values_iff order dump).mp h.loadable.values
    have hcomplete : Complete dump.data := fun property hmem =>
      ⟨hkeys property hmem, hvalues property hmem⟩
    exact ⟨hcomplete, (loadable_iff order dump hcomplete).mp h.loadable⟩
  · rintro ⟨hcomplete, hnodup⟩
    exact
      { joined := (joined_eq_iff order dump).mpr fun property hmem => (hcomplete property hmem).1
        one_link := fun a ha k hk => linksOf_eq_one order dump hcomplete hnodup ha hk
        loadable := (loadable_iff order dump hcomplete).mpr hnodup
        others := others_migrateProperties order }

/-- Two machines with a property timezone. -/
def timezones : Dump where
  data := [("VM_Property".toList,
    [hash [("vm_id".toList, some ['1']), (key, some "timezone".toList), (value, some ['a'])],
      hash [("vm_id".toList, some ['2']), (key, some "timezone".toList), (value, some ['b'])]])]
  fresh := by decide

/-- Both get a row in QVD_Object_Property_List, against its unique constraint, and
`custom_properties_set` finds two rows where it needs one. -/
theorem timezones_twice :
    ¬Migrated timezones.data (migrateProperties (rotated 0) timezones.data) ∧
      linksOf (migrateProperties (rotated 0) timezones.data) "timezone".toList "vm".toList = 2 := by
  refine ⟨fun h => ?_, by decide⟩
  have hcomplete : Complete timezones.data := by
    unfold Complete
    decide
  have hnodup := (loadable_iff (rotated 0) timezones hcomplete).mp h.loadable
  revert hnodup
  unfold OneObjectPerKey
  decide

end Whole

end Qvd.PropertyMigration
