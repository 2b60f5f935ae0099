import Jvm.Proofs.Registry.Appending

/-!
# What initialization needs of classes

The static fields of a class exist from the start of its initialization on. An array
class has no fields, so no constant that names a field leads to one. A method that is
looked up or selected by name has that name, because the methods of a class are few
enough for their indices.
-/

namespace Jvm

theorem ClassTable.GrowsTo.name_method {before after : ClassTable} (grows : before.GrowsTo after)
    {id : MethodId} (known : before.Has id.owner) :
    (after.method id).name = (before.method id).name :=
  congrArg (·.name) (grows.bodiless_method known)

/-- The methods that a class declares are found where they were found before. -/
theorem ClassTable.GrowsTo.declaredMethod? {before after : ClassTable} (grows : before.GrowsTo after)
    (closedBefore : before.Closed) (closedAfter : after.Closed) {id : ClassId}
    (known : before.Has id) (name descriptor : String) :
    (after.get id).declaredMethod? name descriptor =
      (before.get id).declaredMethod? name descriptor := by
  have same := congrArg (Array.findIdx? fun method =>
    method.name == name && method.descriptor == descriptor) (grows.methods id known)
  rw [Array.findIdx?_map, Array.findIdx?_map] at same
  have found : (after.get id).methods.findIdx? (fun method =>
      method.name == name && method.descriptor == descriptor) =
        (before.get id).methods.findIdx? fun method =>
          method.name == name && method.descriptor == descriptor := same
  rw [Class.declaredMethod?, Class.declaredMethod?, found, closedBefore.ids id known,
    closedAfter.ids id (grows.has known)]

/-- Whether the static fields of a class exist, each in its slots. -/
def Class.Prepared (cls : Class) : Prop :=
  cls.statics.map Fields.size = some cls.staticSlots.toNat

namespace ClassTable

/-- Whether initialization can go by a table. -/
structure Ordered (table : ClassTable) : Prop where
  prepared : ∀ id, table.Has id → (table.get id).array = none →
    (table.get id).initState ≠ .uninitialized → (table.get id).Prepared
  arrays : ∀ id, table.Has id → (table.get id).array.isSome = true → (table.get id).fields = []
  methods : ∀ id, table.Has id → (table.get id).methods.size ≤ UInt16.size
  constants : ∀ id index field, table.Has id →
    (table.get id).pool.slot index = .resolvedField field →
      table.Has field.owner ∧ (table.get field.owner).array = none

end ClassTable

/-- Whether a class differs from another one in nothing that concerns initialization. -/
structure Class.Rests (before after : Class) : Prop where
  state : after.initState = before.initState
  array : after.array = before.array
  fields : after.fields = before.fields
  methods : after.methods.size = before.methods.size
  prepared : before.Prepared → after.Prepared

namespace ClassTable

/-- Whether the classes of a table have made no progress with their initialization since
an earlier one, though there may be further classes. -/
structure Rests (before after : ClassTable) : Prop where
  state : ∀ id, before.Has id → (after.get id).initState = (before.get id).initState
  prepared : ∀ id, before.Has id → (before.get id).Prepared → (after.get id).Prepared
  ordered : before.Ordered → after.Ordered

namespace Ordered

variable {before after : ClassTable}

/-- What a change of classes has to keep. -/
theorem of_classes (ordered : before.Ordered) (size : after.size = before.size)
    (array : ∀ id, before.Has id → (after.get id).array = (before.get id).array)
    (fields : ∀ id, before.Has id → (after.get id).fields = (before.get id).fields)
    (methods : ∀ id, before.Has id → (after.get id).methods.size = (before.get id).methods.size)
    (prepared : ∀ id, before.Has id → (before.get id).array = none →
      (after.get id).initState ≠ .uninitialized → (after.get id).Prepared)
    (constants : ∀ id index field, before.Has id →
      (after.get id).pool.slot index = .resolvedField field →
        before.Has field.owner ∧ (before.get field.owner).array = none) : after.Ordered := by
  have has : ∀ id, after.Has id ↔ before.Has id := by
    intro id
    rw [Has, Has, size]
  refine ⟨?_, ?_, ?_, ?_⟩
  · intro id known plain
    rw [has] at known
    rw [array id known] at plain
    exact prepared id known plain
  · intro id known isArray
    rw [has] at known
    rw [array id known] at isArray
    rw [fields id known]
    exact ordered.arrays id known isArray
  · intro id known
    rw [has] at known
    rw [methods id known]
    exact ordered.methods id known
  · intro id index field known held
    rw [has] at known ⊢
    obtain ⟨owner, plain⟩ := constants id index field known held
    exact ⟨owner, (array field.owner owner).trans plain⟩

end Ordered

section

variable {first second third : ClassTable}

theorem Rests.refl (table : ClassTable) : table.Rests table :=
  ⟨fun _ _ => rfl, fun _ _ prepared => prepared, fun ordered => ordered⟩

theorem Rests.trans (size : first.size ≤ second.size) (left : first.Rests second)
    (right : second.Rests third) : first.Rests third where
  state id known := by
    have later : second.Has id := Nat.lt_of_lt_of_le known size
    exact (right.state id later).trans (left.state id known)
  prepared id known prepared :=
    right.prepared id (Nat.lt_of_lt_of_le known size) (left.prepared id known prepared)
  ordered ordered := right.ordered (left.ordered ordered)

end

/-- Classes that rest one by one, and resolve no constant to a field of an array. -/
theorem rests_of_classes {before after : ClassTable} (size : after.size = before.size)
    (classes : ∀ id, before.Has id → (before.get id).Rests (after.get id))
    (constants : before.Ordered → ∀ id index field, before.Has id →
      (after.get id).pool.slot index = .resolvedField field →
        before.Has field.owner ∧ (before.get field.owner).array = none) : before.Rests after where
  state id known := (classes id known).state
  prepared id known := (classes id known).prepared
  ordered ordered := by
    apply ordered.of_classes size (fun id known => (classes id known).array)
      (fun id known => (classes id known).fields) (fun id known => (classes id known).methods)
    · intro id known plain begun
      rw [(classes id known).state] at begun
      exact (classes id known).prepared (ordered.prepared id known plain begun)
    · exact constants ordered

variable {table : ClassTable}

theorem Class.Rests.refl (cls : Class) : cls.Rests cls :=
  ⟨rfl, rfl, rfl, rfl, fun prepared => prepared⟩

/-- A change of one class that touches no constant. -/
theorem rests_modify (id : ClassId) {change : Class → Class}
    (rests : ∀ cls : Class, cls.Rests (change cls))
    (pool : ∀ cls : Class, (change cls).pool = cls.pool) :
    table.Rests (table.modify id change) := by
  apply rests_of_classes (size_modify ..)
  · intro other known
    rw [get_modify table id other change known]
    split
    · exact rests _
    · exact Class.Rests.refl _
  · intro ordered other index field known held
    rw [get_modify table id other change known] at held
    split at held
    · rw [pool] at held
      exact ordered.constants other index field known held
    · exact ordered.constants other index field known held

theorem rests_map {change : Class → Class} (rests : ∀ cls : Class, cls.Rests (change cls))
    (pool : ∀ cls : Class, (change cls).pool = cls.pool) :
    table.Rests { table with classes := table.classes.map change } := by
  apply rests_of_classes
  · exact Array.size_map
  · intro id known
    rw [get_map known]
    exact rests _
  · intro ordered id index field known held
    rw [get_map known, pool] at held
    exact ordered.constants id index field known held

/-- A constant that is remembered as resolved. -/
theorem rests_remember (id : ClassId) (index : UInt16) {resolved : Constant}
    (owns : ∀ field, resolved = .resolvedField field → table.Ordered →
      table.Has field.owner ∧ (table.get field.owner).array = none) :
    table.Rests (table.modify id fun cls => { cls with pool := cls.pool.set index resolved }) := by
  apply rests_of_classes (size_modify ..)
  · intro other known
    rw [get_modify table id other _ known]
    split
    · exact ⟨rfl, rfl, rfl, rfl, fun prepared => prepared⟩
    · exact Class.Rests.refl _
  · intro ordered other place field known held
    rw [get_modify table id other _ known] at held
    split at held
    · rw [ConstantPool.slot_set] at held
      split at held
      · exact owns field held ordered
      · exact ordered.constants other place field known held
    · exact ordered.constants other place field known held

/-- Linking appends classes that have not begun, or that have nothing to begin. -/
theorem Prefixes.rests {before after : ClassTable} (prefixes : before.Prefixes after) :
    before.Rests after where
  state id known := by rw [prefixes.classes id known]
  prepared id known := by
    rw [prefixes.classes id known]
    exact fun prepared => prepared
  ordered ordered := by
    refine ⟨?_, ?_, ?_, ?_⟩ <;> intro id
    · intro known plain begun
      by_cases old : before.Has id
      · rw [prefixes.classes id old] at plain begun ⊢
        exact ordered.prepared id old plain begun
      · have state := (prefixes.fresh id known old).1.state
        rw [plain] at state
        exact (begun state).elim
    · intro known isArray
      by_cases old : before.Has id
      · rw [prefixes.classes id old] at isArray ⊢
        exact ordered.arrays id old isArray
      · exact (prefixes.fresh id known old).1.fields isArray
    · intro known
      by_cases old : before.Has id
      · rw [prefixes.classes id old]
        exact ordered.methods id old
      · exact (prefixes.fresh id known old).1.methods
    · intro index field known held
      by_cases old : before.Has id
      · rw [prefixes.classes id old] at held
        obtain ⟨owner, plain⟩ := ordered.constants id index field old held
        rw [prefixes.classes field.owner owner]
        exact ⟨prefixes.has owner, plain⟩
      · have symbolic := (prefixes.fresh id known old).1.pool index
        rw [held] at symbolic
        exact symbolic.elim

/-! ## Names of methods and owners of fields -/

section

variable (closed : table.Closed) (ordered : table.Ordered)

include closed ordered

theorem name_of_declaredMethod? {name descriptor : String} {id : ClassId} {method : MethodId}
    (known : table.Has id) (found : table.declaredMethod? name descriptor id = some method) :
    (table.method method).name = name := by
  rw [declaredMethod?, Class.declaredMethod?, Option.map_eq_some_iff] at found
  obtain ⟨index, position, rfl⟩ := found
  obtain ⟨inside, matched, -⟩ := Array.findIdx?_eq_some_iff_getElem.mp position
  have index_eq : (UInt16.ofNat index).toNat = index := by
    rw [UInt16.toNat_ofNat']
    exact Nat.mod_eq_of_lt (Nat.lt_of_lt_of_le inside (ordered.methods id known))
  have same : table.method ⟨(table.get id).id, UInt16.ofNat index⟩ = (table.get id).methods[index] := by
    simp only [method, closed.ids id known, index_eq, Array.getD_eq_getD_getElem?,
      Array.getElem?_eq_getElem inside, Option.getD_some]
  rw [same]
  exact eq_of_beq (Bool.and_eq_true_iff.mp matched).1

theorem name_of_lookupMethod {id : ClassId} {name descriptor : String} {method : MethodId}
    (known : table.Has id) (found : table.lookupMethod id name descriptor = some method) :
    (table.method method).name = name := by
  obtain ⟨above, here, declared⟩ := declares_of_lookupMethod closed known found
  exact name_of_declaredMethod? closed ordered here declared

theorem name_of_select? {receiver : ClassId} {resolved target : MethodId}
    (known : table.Has receiver) (found : table.select? receiver resolved = some target) :
    (table.method target).name = (table.method resolved).name := by
  rw [select?] at found
  split at found
  · cases found
    rfl
  · exact name_of_lookupMethod closed ordered known found

/-- The initializer of a class is one. -/
theorem isInitializer_of_initializer? {id : ClassId} {method : MethodId} (known : table.Has id)
    (found : (table.get id).initializer? = some method) :
    (table.method method).isInitializer = true := by
  rw [Method.isInitializer, name_of_declaredMethod? closed ordered known found]
  exact beq_self_eq_true _

/-- A class that a field is found in is no array class. -/
theorem array_of_lookupField {id owner : ClassId} {name descriptor : String} {field : Field}
    (known : table.Has id) (found : table.lookupField id name descriptor = some (owner, field)) :
    (table.get owner).array = none := by
  have has := has_of_lookupField closed known found
  obtain ⟨above, -, declared⟩ := List.exists_of_findSome?_eq_some found
  obtain ⟨place, -, declared⟩ := List.exists_of_findSome?_eq_some declared
  obtain ⟨field', held, same⟩ := Option.map_eq_some_iff.mp declared
  cases same
  cases array : (table.get owner).array with
  | none => rfl
  | some info =>
      rw [Class.declaredField?, ordered.arrays owner has (by rw [array]; rfl)] at held
      cases held

end

end ClassTable

/-! ## Registries -/

namespace Registry

/-- Whether initialization can go by a registry. -/
structure Ordered (registry : Registry) : Prop where
  table : registry.toClassTable.Ordered
  selected : ∀ (key : ClassId × MethodId) (target : MethodId),
    registry.selected[key]? = some target →
      registry.Has key.2.owner ∧ registry.Has target.owner ∧
        (registry.method target).name = (registry.method key.2).name

/-- Whether the classes of a registry have made no progress with their initialization
since an earlier one. -/
structure Rests (before after : Registry) : Prop where
  table : before.toClassTable.Rests after.toClassTable
  ordered : before.Ordered → after.Ordered

theorem Rests.refl (registry : Registry) : registry.Rests registry :=
  ⟨.refl _, fun ordered => ordered⟩

theorem Rests.trans {first second third : Registry}
    (grows : first.toClassTable.GrowsTo second.toClassTable) (left : first.Rests second)
    (right : second.Rests third) : first.Rests third :=
  ⟨left.table.trans grows.size right.table, fun ordered => right.ordered (left.ordered ordered)⟩

variable {registry : Registry}

/-- The selections are as good as they were if the classes have changed alone. -/
theorem Ordered.of_table (ordered : registry.Ordered) {table : ClassTable}
    (grows : registry.GrowsTo table) (orders : table.Ordered) :
    { registry with toClassTable := table }.Ordered := by
  refine ⟨orders, ?_⟩
  intro key target held
  obtain ⟨resolved, known, same⟩ := ordered.selected key target held
  refine ⟨grows.has resolved, grows.has known, ?_⟩
  exact (grows.name_method known).trans (same.trans (grows.name_method resolved).symm)

/-- Changes of the classes that leave the selections alone. -/
theorem rests_of_table {table : ClassTable} (grows : registry.GrowsTo table)
    (rests : registry.toClassTable.Rests table) :
    registry.Rests { registry with toClassTable := table } :=
  ⟨rests, fun ordered => ordered.of_table grows (rests.ordered ordered.table)⟩

section

variable (closed : registry.Closed) {receiver : ClassId} {resolved : MethodId}
  (known : registry.Has receiver)

include closed known

theorem rests_resolveVirtual (linked : registry.HasMethod resolved) :
    registry.Rests (registry.resolveVirtual receiver resolved).2 := by
  rw [resolveVirtual]
  split
  next => exact .refl registry
  next =>
      split
      next target found =>
          refine ⟨.refl _, fun ordered => ⟨ordered.table, ?_⟩⟩
          intro key other held
          rw [Std.HashMap.getElem?_insert] at held
          split at held
          next same =>
              cases held
              cases eq_of_beq same
              have chosen := ClassTable.hasMethod_of_select? closed.table known linked found
              exact ⟨linked.1, chosen.1,
                ClassTable.name_of_select? closed.table ordered.table known found⟩
          next => exact ordered.selected key other held
      next => exact .refl registry

/-- The target of a call has the name of the method that the call resolved to. -/
theorem name_of_resolveVirtual (ordered : registry.Ordered) {target : MethodId}
    (found : (registry.resolveVirtual receiver resolved).1 = some target) :
    (registry.method target).name = (registry.method resolved).name := by
  rw [resolveVirtual] at found
  split at found
  next remembered =>
      cases found
      exact (ordered.selected _ _ remembered).2.2
  next =>
      split at found
      next chosen =>
          cases found
          exact ClassTable.name_of_select? closed.table ordered.table known chosen
      next => cases found

end

end Registry

end Jvm
