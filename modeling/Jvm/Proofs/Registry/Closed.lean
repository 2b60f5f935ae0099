import Jvm.Registry.Lookup

/-!
# Ids of a class table

Every id that a class table holds is that of one of its classes, and every
method found in it is one of its methods. Classes are only ever added, and their
methods stay but for what they run, so an id that names a class or a method goes
on naming it.
-/

namespace Jvm

/-- A method without what it runs: its code and the native bound to it. -/
def Method.bodiless (method : Method) : Method := { method with native := none, code := none }

namespace ClassTable

/-- Whether an id is that of a class of a table. -/
def Has (table : ClassTable) (id : ClassId) : Prop := id.index < table.size

/-- Whether an id is that of a method of a table. -/
def HasMethod (table : ClassTable) (id : MethodId) : Prop :=
  table.Has id.owner ∧ id.index.toNat < (table.get id.owner).methods.size

/-- Whether a table has come from another one: no class is gone, and every class has
the methods that it had, but for what they run. -/
structure GrowsTo (before after : ClassTable) : Prop where
  size : before.size ≤ after.size
  methods : ∀ id, before.Has id →
    (after.get id).methods.map Method.bodiless = (before.get id).methods.map Method.bodiless

namespace GrowsTo

variable {first second third : ClassTable}

theorem refl (table : ClassTable) : table.GrowsTo table := ⟨Nat.le_refl _, fun _ _ => rfl⟩

theorem has (grows : first.GrowsTo second) {id : ClassId} (known : first.Has id) :
    second.Has id :=
  Nat.lt_of_lt_of_le known grows.size

theorem size_methods (grows : first.GrowsTo second) {id : ClassId} (known : first.Has id) :
    (second.get id).methods.size = (first.get id).methods.size := by
  have same := congrArg Array.size (grows.methods id known)
  rwa [Array.size_map, Array.size_map] at same

theorem hasMethod (grows : first.GrowsTo second) {id : MethodId} (known : first.HasMethod id) :
    second.HasMethod id := by
  refine ⟨grows.has known.1, ?_⟩
  rw [grows.size_methods known.1]
  exact known.2

theorem bodiless_method (grows : first.GrowsTo second) {id : MethodId}
    (known : first.Has id.owner) :
    (second.method id).bodiless = (first.method id).bodiless := by
  have same := congrArg (fun methods => methods.getD id.index.toNat (Method.bodiless default))
    (grows.methods id.owner known)
  simp only [Array.getD_eq_getD_getElem?, Array.getElem?_map, Option.getD_map] at same
  simp only [method, Array.getD_eq_getD_getElem?]
  exact same

theorem trans (left : first.GrowsTo second) (right : second.GrowsTo third) :
    first.GrowsTo third where
  size := Nat.le_trans left.size right.size
  methods id known := (right.methods id (left.has known)).trans (left.methods id known)

end GrowsTo

end ClassTable

/-- Whether the ids that a resolved constant holds are those of a table. -/
def Constant.IdsIn (table : ClassTable) : Constant → Prop
  | .resolvedClass id => table.Has id
  | .resolvedField field => table.Has field.owner
  | .resolvedMethod method => table.HasMethod method.method
  | _ => True

/-- Whether the ids that a class holds are those of a table. -/
structure Class.IdsIn (table : ClassTable) (cls : Class) : Prop where
  superclass : ∀ above, cls.superclass = some above → table.Has above
  interfaces : ∀ iface ∈ cls.interfaces, table.Has iface
  component : ∀ info component, cls.array = some info → info.component = some component →
    table.Has component
  pool : ∀ index, (cls.pool.slot index).IdsIn table

/-- Whether a class differs from another one in nothing that a class is known by. -/
structure Class.SameShape (before after : Class) : Prop where
  id : after.id = before.id
  superclass : after.superclass = before.superclass
  interfaces : after.interfaces = before.interfaces
  array : after.array = before.array
  methods : after.methods.map Method.bodiless = before.methods.map Method.bodiless

namespace ClassTable

/-- Whether every id that a table holds is its own. -/
structure Closed (table : ClassTable) : Prop where
  ids : ∀ id, table.Has id → (table.get id).id = id
  classes : ∀ id, table.Has id → (table.get id).IdsIn table
  names : ∀ name id, table.find? name = some id → table.Has id

/-! ## Changes of one class -/

section

variable (table : ClassTable) (id other : ClassId) (change : Class → Class)

@[simp] theorem size_modify : (table.modify id change).size = table.size :=
  Array.size_modify

theorem has_modify : (table.modify id change).Has other ↔ table.Has other := by
  rw [Has, Has, size_modify]

theorem get_modify_of_ne (differs : id ≠ other) :
    (table.modify id change).get other = table.get other := by
  have apart : ¬id.index = other.index := by
    intro equal
    cases id
    cases other
    exact differs (congrArg ClassId.mk equal)
  simp only [get, modify, Array.getD_eq_getD_getElem?, Array.getElem?_modify, if_neg apart]

theorem get_modify (known : table.Has other) :
    (table.modify id change).get other =
      if id = other then change (table.get other) else table.get other := by
  have inside : other.index < table.classes.size := known
  by_cases same : id = other
  · subst same
    simp only [get, modify, Array.getD_eq_getD_getElem?, Array.getElem?_modify,
      Array.getElem?_eq_getElem inside, if_true]
    rfl
  · rw [if_neg same, get_modify_of_ne _ _ _ _ same]

/-- What a change leaves of every class is left of the classes of a table. -/
theorem view_modify {α : Type} (view : Class → α) (same : ∀ cls, view (change cls) = view cls) :
    view ((table.modify id change).get other) = view (table.get other) := by
  simp only [get, modify, Array.getD_eq_getD_getElem?, Array.getElem?_modify]
  split
  · cases table.classes[other.index]? with
    | none => rfl
    | some cls => exact same cls
  · rfl

end

end ClassTable

theorem Constant.IdsIn.grow {before after : ClassTable} (grows : before.GrowsTo after)
    {constant : Constant} (ids : constant.IdsIn before) : constant.IdsIn after := by
  cases constant with
  | resolvedClass id => exact grows.has ids
  | resolvedField field => exact grows.has ids
  | resolvedMethod method => exact grows.hasMethod ids
  | _ => exact trivial

theorem Class.IdsIn.grow {before after : ClassTable} (grows : before.GrowsTo after) {cls : Class}
    (ids : cls.IdsIn before) : cls.IdsIn after where
  superclass above found := grows.has (ids.superclass above found)
  interfaces iface member := grows.has (ids.interfaces iface member)
  component info component array found := grows.has (ids.component info component array found)
  pool index := (ids.pool index).grow grows

namespace Class.SameShape

theorem of_modify {cls : Class} (index : Nat) {change : Method → Method}
    (same : ∀ method : Method, (change method).bodiless = method.bodiless) :
    cls.SameShape { cls with methods := cls.methods.modify index change } where
  id := rfl
  superclass := rfl
  interfaces := rfl
  array := rfl
  methods := by
    apply Array.ext_getElem?
    intro place
    simp only [Array.getElem?_map, Array.getElem?_modify]
    split
    · simp only [Option.map_map, Function.comp_def, same]
    · rfl

theorem idsIn {before after : Class} (same : SameShape before after) {table : ClassTable}
    (ids : before.IdsIn table) (pool : ∀ index, (after.pool.slot index).IdsIn table) :
    after.IdsIn table where
  superclass above found := ids.superclass above (same.superclass.symm.trans found)
  interfaces iface member := by
    rw [same.interfaces] at member
    exact ids.interfaces iface member
  component info component array found :=
    ids.component info component (same.array.symm.trans array) found
  pool := pool

end Class.SameShape

namespace ClassTable

variable {table : ClassTable}

theorem growsTo_modify (id : ClassId) {change : Class → Class}
    (same : (table.get id).SameShape (change (table.get id))) :
    table.GrowsTo (table.modify id change) where
  size := Nat.le_of_eq (size_modify table id change).symm
  methods other known := by
    rw [get_modify table id other change known]
    split
    next equal =>
      subst equal
      exact same.methods
    next => rfl

namespace Closed

/-- A change of a class that leaves its shape alone and resolves constants to what
is there leaves the table closed. -/
theorem modify (closed : table.Closed) (id : ClassId) {change : Class → Class}
    (same : (table.get id).SameShape (change (table.get id)))
    (pool : table.Has id → ∀ index, ((change (table.get id)).pool.slot index).IdsIn table) :
    (table.modify id change).Closed where
  ids other known := by
    rw [has_modify] at known
    rw [get_modify table id other change known]
    split
    next equal =>
      subst equal
      exact same.id.trans (closed.ids id known)
    next => exact closed.ids other known
  classes other known := by
    rw [has_modify] at known
    have grows := growsTo_modify id same
    rw [get_modify table id other change known]
    split
    next equal =>
      subst equal
      exact (same.idsIn (closed.classes id known) (pool known)).grow grows
    next => exact (closed.classes other known).grow grows
  names name other found := by
    rw [has_modify]
    exact closed.names name other found

/-- A change of a class that touches neither its shape nor its constants. -/
theorem modify_of_pool_eq (closed : table.Closed) (id : ClassId) {change : Class → Class}
    (same : (table.get id).SameShape (change (table.get id)))
    (pool : (change (table.get id)).pool = (table.get id).pool) :
    (table.modify id change).Closed := by
  apply closed.modify id same
  intro known index
  rw [pool]
  exact (closed.classes id known).pool index

/-- An id beyond the table stands for a class that holds no ids. -/
theorem idsIn (closed : table.Closed) (id : ClassId) : (table.get id).IdsIn table := by
  by_cases known : table.Has id
  · exact closed.classes id known
  · have outside : table.get id = default := by
      rw [get, Array.getD_eq_getD_getElem?, Array.getElem?_eq_none (Nat.le_of_not_lt known)]
      rfl
    rw [outside]
    refine ⟨?_, ?_, ?_, ?_⟩
    · rintro above ⟨⟩
    · rintro iface ⟨⟩
    · rintro info component ⟨⟩
    · exact fun index => trivial

end Closed

/-! ## Changes of all classes -/

section

variable {change : Class → Class} (same : ∀ cls : Class, cls.SameShape (change cls))

theorem get_map {id : ClassId} (known : table.Has id) :
    ({ table with classes := table.classes.map change } : ClassTable).get id =
      change (table.get id) := by
  have inside : id.index < table.classes.size := known
  simp only [get, Array.getD_eq_getD_getElem?, Array.getElem?_map,
    Array.getElem?_eq_getElem inside]
  rfl

theorem has_map {id : ClassId} :
    ({ table with classes := table.classes.map change } : ClassTable).Has id ↔ table.Has id := by
  simp only [Has, size, Array.size_map]

include same

theorem growsTo_map :
    table.GrowsTo { table with classes := table.classes.map change } where
  size := Nat.le_of_eq (Array.size_map ..).symm
  methods id known := by
    rw [get_map known]
    exact (same _).methods

theorem Closed.map (closed : table.Closed) (pool : ∀ cls : Class, (change cls).pool = cls.pool) :
    ({ table with classes := table.classes.map change } : ClassTable).Closed where
  ids id known := by
    rw [has_map] at known
    rw [get_map known]
    exact (same _).id.trans (closed.ids id known)
  classes id known := by
    rw [has_map] at known
    rw [get_map known]
    have ids := (same _).idsIn (closed.classes id known) fun index => by
      rw [pool]
      exact (closed.classes id known).pool index
    exact ids.grow (growsTo_map same)
  names name id found := has_map.mpr (closed.names name id found)

end

/-! ## Registration -/

theorem size_register (table : ClassTable) (cls : Class) :
    (table.register cls).size = table.size + 1 :=
  Array.size_push cls

theorem get_register_of_has (table : ClassTable) (cls : Class) {id : ClassId}
    (known : table.Has id) : (table.register cls).get id = table.get id := by
  have inside : id.index < table.classes.size := known
  simp only [get, register, Array.getD_eq_getD_getElem?, Array.getElem?_push]
  rw [if_neg (Nat.ne_of_lt inside)]

theorem get_register_nextId (table : ClassTable) (cls : Class) :
    (table.register cls).get table.nextId = cls := by
  simp [get, register, nextId, size]

theorem has_register (table : ClassTable) (cls : Class) {id : ClassId}
    (known : (table.register cls).Has id) : table.Has id ∨ id = table.nextId := by
  rw [Has, size_register] at known
  rcases Nat.lt_succ_iff_lt_or_eq.mp known with below | last
  · exact .inl below
  · cases id
    exact .inr (congrArg ClassId.mk last)

theorem growsTo_register (table : ClassTable) (cls : Class) :
    table.GrowsTo (table.register cls) where
  size := by
    rw [size_register]
    exact Nat.le_succ _
  methods id known := by rw [get_register_of_has table cls known]

theorem find?_register (table : ClassTable) (cls : Class) (name : String) :
    (table.register cls).find? name =
      if cls.name = name then some table.nextId else table.find? name := by
  simp only [find?, register, Std.HashMap.getElem?_insert, beq_iff_eq]

/-- What holds of each class of a table and of one that is registered holds of each class then. -/
theorem forall_register {cls : Class} (P : ClassId → Class → Prop)
    (old : ∀ id, table.Has id → P id (table.get id)) (new : P table.nextId cls) (id : ClassId)
    (known : (table.register cls).Has id) : P id ((table.register cls).get id) := by
  rcases has_register table cls known with before | rfl
  · rw [get_register_of_has table cls before]
    exact old id before
  · rw [get_register_nextId]
    exact new

/-- Names are those of the classes that they find. -/
theorem names_register {cls : Class} (names : ∀ name id, table.find? name = some id →
    table.Has id ∧ (table.get id).name = name) (name : String) (id : ClassId)
    (found : (table.register cls).find? name = some id) :
    (table.register cls).Has id ∧ ((table.register cls).get id).name = name := by
  rw [find?_register] at found
  split at found
  next same =>
      cases found
      rw [get_register_nextId, Has, size_register]
      exact ⟨Nat.lt_succ_self _, same⟩
  next =>
      obtain ⟨known, same⟩ := names name id found
      rw [get_register_of_has table cls known]
      exact ⟨(growsTo_register table cls).has known, same⟩

theorem Closed.register (closed : table.Closed) {cls : Class} (id : cls.id = table.nextId)
    (ids : cls.IdsIn (table.register cls)) : (table.register cls).Closed where
  ids := forall_register (fun id cls => cls.id = id) closed.ids id
  classes := forall_register (fun _ other => other.IdsIn (table.register cls))
    (fun id known => (closed.classes id known).grow (growsTo_register table cls)) ids
  names name other found := by
    rw [find?_register] at found
    split at found
    · cases found
      rw [Has, size_register]
      exact Nat.lt_succ_self _
    · exact (growsTo_register table cls).has (closed.names name other found)

/-! ## What look-ups find -/

section

variable (closed : table.Closed)

include closed

theorem has_of_superclass? {id above : ClassId} (known : table.Has id)
    (found : table.superclass? id = some above) : table.Has above := by
  rw [superclass?, Option.filter_eq_some_iff] at found
  exact (closed.classes id known).superclass above found.1

theorem has_of_mem_superChain {id above : ClassId} (known : table.Has id)
    (member : above ∈ table.superChain id) : table.Has above := by
  induction id using superChain.induct table with
  | case1 id root =>
      rw [superChain] at member
      split at member
      next => cases List.mem_singleton.mp member; exact known
      next next found => cases root.symm.trans found
  | case2 id next found ih =>
      rw [superChain] at member
      split at member
      next root => cases found.symm.trans root
      next next' found' =>
          cases found.symm.trans found'
          rcases List.mem_cons.mp member with rfl | above
          · exact known
          · exact ih (has_of_superclass? closed known found) above

theorem has_of_mem_gatherInterfaces {fuel : Nat} {queue seen : List ClassId}
    (queued : ∀ id ∈ queue, table.Has id) (gathered : ∀ id ∈ seen, table.Has id) {id : ClassId}
    (member : id ∈ table.gatherInterfaces fuel queue seen) : table.Has id := by
  induction fuel, queue, seen using gatherInterfaces.induct table with
  | case1 fuel seen =>
      rw [gatherInterfaces.eq_def] at member
      exact gathered id member
  | case2 fuel head queue seen known ih =>
      rw [gatherInterfaces.eq_def] at member
      simp only [if_pos known] at member
      exact ih (fun id later => queued id (.tail _ later)) gathered member
  | case3 head queue seen fresh =>
      rw [gatherInterfaces, if_neg fresh] at member
      exact gathered id member
  | case4 head queue seen fresh fuel ih =>
      rw [gatherInterfaces, if_neg fresh] at member
      have here := queued head (.head _)
      apply ih _ _ member
      · intro id later
        rcases List.mem_append.mp later with old | new
        · exact queued id (.tail _ old)
        · exact (closed.classes head here).interfaces id new
      · intro id later
        rcases List.mem_append.mp later with old | new
        · exact gathered id old
        · cases List.mem_singleton.mp new
          exact here

theorem has_of_mem_allInterfaces {id iface : ClassId} (known : table.Has id)
    (member : iface ∈ table.allInterfaces id) : table.Has iface := by
  apply has_of_mem_gatherInterfaces closed _ _ member
  · intro iface declared
    obtain ⟨above, chain, declared⟩ := List.mem_flatMap.mp declared
    exact (closed.classes above (has_of_mem_superChain closed known chain)).interfaces iface declared
  · intro iface none
    cases none

theorem hasMethod_of_declaredMethod? {name descriptor : String} {id : ClassId} {method : MethodId}
    (known : table.Has id) (found : table.declaredMethod? name descriptor id = some method) :
    table.HasMethod method := by
  rw [declaredMethod?, Class.declaredMethod?, Option.map_eq_some_iff] at found
  obtain ⟨index, position, rfl⟩ := found
  have inside : index < (table.get id).methods.size :=
    (Array.findIdx?_eq_some_iff_getElem.mp position).1
  have owner := closed.ids id known
  refine ⟨?_, ?_⟩
  · rw [owner]
    exact known
  · rw [owner]
    exact Nat.lt_of_le_of_lt (by rw [UInt16.toNat_ofNat']; exact Nat.mod_le _ _) inside

/-- The search for a method finds what a class, one of its superclasses or one of its
interfaces declares. -/
theorem declares_of_lookupMethod {id : ClassId} {name descriptor : String} {method : MethodId}
    (known : table.Has id) (found : table.lookupMethod id name descriptor = some method) :
    ∃ above, table.Has above ∧ table.declaredMethod? name descriptor above = some method := by
  rw [lookupMethod] at found
  split at found
  next method' inherited =>
      cases found
      obtain ⟨above, chain, declared⟩ := List.exists_of_findSome?_eq_some inherited
      exact ⟨above, has_of_mem_superChain closed known chain, declared⟩
  next =>
      have member : method ∈ (table.allInterfaces id).filterMap
          (table.declaredMethod? name descriptor) := by
        rcases Option.or_eq_some_iff.mp found with preferred | ⟨-, first⟩
        · exact List.mem_of_find?_eq_some preferred
        · exact List.mem_of_head? first
      obtain ⟨iface, implemented, declared⟩ := List.mem_filterMap.mp member
      exact ⟨iface, has_of_mem_allInterfaces closed known implemented, declared⟩

theorem hasMethod_of_lookupMethod {id : ClassId} {name descriptor : String} {method : MethodId}
    (known : table.Has id) (found : table.lookupMethod id name descriptor = some method) :
    table.HasMethod method := by
  obtain ⟨above, here, declared⟩ := declares_of_lookupMethod closed known found
  exact hasMethod_of_declaredMethod? closed here declared

theorem has_of_lookupField {id owner : ClassId} {name descriptor : String} {field : Field}
    (known : table.Has id) (found : table.lookupField id name descriptor = some (owner, field)) :
    table.Has owner := by
  obtain ⟨above, chain, declared⟩ := List.exists_of_findSome?_eq_some found
  have here := has_of_mem_superChain closed known chain
  obtain ⟨place, candidate, declared⟩ := List.exists_of_findSome?_eq_some declared
  obtain ⟨field, -, same⟩ := Option.map_eq_some_iff.mp declared
  cases same
  rcases List.mem_cons.mp candidate with rfl | implemented
  · exact here
  · exact has_of_mem_allInterfaces closed here implemented

theorem hasMethod_of_initializer? {id : ClassId} {method : MethodId} (known : table.Has id)
    (found : (table.get id).initializer? = some method) : table.HasMethod method :=
  hasMethod_of_declaredMethod? closed known found

theorem owner_of_initializer? {id : ClassId} {method : MethodId} (known : table.Has id)
    (found : (table.get id).initializer? = some method) : method.owner = id := by
  rw [Class.initializer?, Class.declaredMethod?, Option.map_eq_some_iff] at found
  obtain ⟨index, -, rfl⟩ := found
  exact closed.ids id known

theorem hasMethod_of_select? {receiver : ClassId} {resolved target : MethodId}
    (known : table.Has receiver) (linked : table.HasMethod resolved)
    (found : table.select? receiver resolved = some target) : table.HasMethod target := by
  rw [select?] at found
  split at found
  · cases found
    exact linked
  · exact hasMethod_of_lookupMethod closed known found

end

end ClassTable

/-- Whether every id that a registry holds is that of one of its classes. -/
structure Registry.Closed (registry : Registry) : Prop where
  table : registry.toClassTable.Closed
  selected : ∀ (key : ClassId × MethodId) (target : MethodId),
    registry.selected[key]? = some target → registry.HasMethod target

/-- Selecting the target of a call leaves the classes alone. -/
theorem Registry.toClassTable_resolveVirtual (registry : Registry) (receiver : ClassId)
    (resolved : MethodId) :
    (registry.resolveVirtual receiver resolved).2.toClassTable = registry.toClassTable := by
  rw [resolveVirtual]
  split
  · rfl
  · split <;> rfl

namespace Registry.Closed

/-- Selecting the target of a call leaves the classes alone and gives a linked
method. -/
theorem resolveVirtual {registry : Registry} (closed : registry.Closed) {receiver : ClassId}
    {resolved : MethodId} (known : registry.Has receiver) (linked : registry.HasMethod resolved) :
    (registry.resolveVirtual receiver resolved).2.toClassTable = registry.toClassTable ∧
      (registry.resolveVirtual receiver resolved).2.Closed ∧
      ∀ target, (registry.resolveVirtual receiver resolved).1 = some target →
        registry.HasMethod target := by
  rw [Registry.resolveVirtual]
  split
  next target remembered =>
      refine ⟨rfl, closed, ?_⟩
      rintro _ ⟨⟩
      exact closed.selected _ _ remembered
  next =>
      split
      next target found =>
          have linked := ClassTable.hasMethod_of_select? closed.table known linked found
          refine ⟨rfl, ⟨closed.table, ?_⟩, ?_⟩
          · intro key other held
            rw [Std.HashMap.getElem?_insert] at held
            split at held
            · cases held
              exact linked
            · exact closed.selected key other held
          · rintro _ ⟨⟩
            exact linked
      next =>
          refine ⟨rfl, closed, ?_⟩
          rintro _ ⟨⟩

end Registry.Closed

end Jvm
