import Jvm.Proofs.Effects
import Jvm.Proofs.Registry.Appending
import Jvm.Registry.Load

/-!
# What linking overlooks

Linking reads names, flags and layouts of the classes that are there and nothing of their
pools and methods. So beside classes with other pools and other code it links the same
classes, fails for the same reasons and leaves the same table but for what was different.
-/

namespace Jvm

namespace ClassTable

/-- Whether a change of tables is one that linking does not notice: it is to pools and methods
at most, and classes are registered beside it. -/
structure Unnoticed (meant : ClassTable → Prop) (change : ClassTable → ClassTable) : Prop where
  size : ∀ table, (change table).size = table.size
  names : ∀ table name, (change table).find? name = table.find? name
  classes : ∀ table id, ∃ pool methods,
    (change table).get id = { table.get id with pool, methods }
  register : ∀ table cls, meant table →
    meant (table.register cls) ∧ (change table).register cls = change (table.register cls)

/-- A class is what it was in all that is neither its pool nor its methods. -/
theorem Unnoticed.view {meant : ClassTable → Prop} {change : ClassTable → ClassTable}
    (unnoticed : Unnoticed meant change) {α : Type} (view : Class → α)
    (blind : ∀ cls pool methods, view { cls with pool, methods } = view cls) (table : ClassTable)
    (id : ClassId) : view ((change table).get id) = view (table.get id) := by
  obtain ⟨pool, methods, same⟩ := unnoticed.classes table id
  rw [same, blind]

/-- A table with another pool in one of its classes. -/
def withPool (owner : ClassId) (pool : ConstantPool) (table : ClassTable) : ClassTable :=
  table.modify owner fun cls => { cls with pool }

section

variable (table : ClassTable) (owner : ClassId) (pool : ConstantPool)

/-- A class is what it was in all that is not its pool. -/
theorem view_withPool {α : Type} (view : Class → α)
    (blind : ∀ cls : Class, view { cls with pool } = view cls) (id : ClassId) :
    view ((table.withPool owner pool).get id) = view (table.get id) :=
  view_modify table owner id _ view blind

theorem pool_withPool (known : table.Has owner) (id : ClassId) :
    ((table.withPool owner pool).get id).pool = if owner = id then pool else (table.get id).pool := by
  by_cases same : owner = id
  · subst same
    rw [withPool, get_modify table owner owner _ known, if_pos rfl, if_pos rfl]
  · rw [withPool, get_modify_of_ne table owner id _ same, if_neg same]

theorem withPool_register (known : table.Has owner) (cls : Class) :
    (table.withPool owner pool).register cls = (table.register cls).withPool owner pool := by
  have inside : owner.index < table.classes.size := known
  have classes : (table.classes.modify owner.index fun cls => { cls with pool }).push cls =
      (table.classes.push cls).modify owner.index fun cls => { cls with pool } := by
    apply Array.ext
    · simp only [Array.size_push, Array.size_modify]
    · intro index _ within
      rw [Array.size_modify, Array.size_push] at within
      simp only [Array.getElem_push, Array.getElem_modify, Array.size_modify]
      split
      · rfl
      · rw [if_neg]
        omega
  simp only [withPool, modify, register, nextId, size, Array.size_modify, classes]

end

theorem unnoticed_withPool (owner : ClassId) (pool : ConstantPool) :
    Unnoticed (fun table => table.Has owner) (withPool owner pool) where
  size table := size_modify ..
  names table name := rfl
  classes table id := by
    refine ⟨((table.withPool owner pool).get id).pool, (table.get id).methods, ?_⟩
    exact (table.view_withPool owner pool
      (fun cls => { cls with pool := ((table.withPool owner pool).get id).pool }) (fun _ => rfl) id)
  register table cls known :=
    ⟨(growsTo_register table cls).has known, withPool_register table owner pool known cls⟩

end ClassTable

namespace Linking

open ClassTable

theorem overlooks_ofExcept {meant : ClassTable → Prop} {change : ClassTable → ClassTable} {α : Type}
    (result : Except LoadError α) : Overlooks meant change (ofExcept result) := by
  cases result with
  | ok value => exact .pure value
  | error error => exact .throw error

section

variable {meant : ClassTable → Prop} {change : ClassTable → ClassTable}
  (unnoticed : Unnoticed meant change)

include unnoticed

/-- A class that does not depend on the change is registered beside it. -/
theorem overlooks_register (make : ClassTable → Except LoadError Class)
    (blind : ∀ table, make (change table) = make table) :
    Overlooks meant change (do
      let table ← get
      let cls ← ofExcept (make table)
      set (table.register cls)
      pure cls.id : Linking ClassId) := by
  intro table holds
  have begins : ∀ table, (do
      let table ← get
      let cls ← ofExcept (make table)
      set (table.register cls)
      pure cls.id : Linking ClassId) table =
        match make table with
        | .ok cls => .ok cls.id (table.register cls)
        | .error error => .error error table := by
    intro table
    change (ofExcept (make table) >>= _) table = _
    cases make table <;> rfl
  simp only [Ends, begins, blind]
  cases make table with
  | error error => exact ⟨holds, rfl⟩
  | ok cls =>
      obtain ⟨kept, same⟩ := unnoticed.register table cls holds
      refine ⟨kept, ?_⟩
      simp only [same]

theorem nextId_change (table : ClassTable) : (change table).nextId = table.nextId :=
  congrArg ClassId.mk (unnoticed.size table)

theorem overlooks_registerArray (name : String) (element : Kind) (component : Option ClassId)
    (superclass : ClassId) (interfaces : List ClassId) :
    Overlooks meant change (registerArray name element component superclass interfaces) :=
  overlooks_register unnoticed (fun table => .ok
    { id := table.nextId, name
      flags := Access.isPublic ||| Access.isFinal ||| Access.isAbstract
      superclass := some superclass, interfaces, initState := .initialized
      array := some { dimensions := ArrayName.dimensions name, element, component } })
    fun table => by rw [nextId_change unnoticed]

/-- A class is linked by the id and the layout of its superclass. -/
theorem link_change (table : ClassTable) (file : ClassFile) (superclass : Option ClassId)
    (interfaces : List ClassId) (id : ClassId) :
    Class.link id file (superclass.map (change table).get) interfaces =
      Class.link id file (superclass.map table.get) interfaces := by
  have ids : (superclass.map (change table).get).map (·.id) =
      (superclass.map table.get).map (·.id) := by
    cases superclass with
    | none => rfl
    | some above => exact congrArg some (unnoticed.view (·.id) (fun _ _ _ => rfl) table above)
  have layouts : Layout.below (superclass.map (change table).get) =
      Layout.below (superclass.map table.get) := by
    cases superclass with
    | none => rfl
    | some above =>
        exact unnoticed.view (fun cls => Layout.below (some cls)) (fun _ _ _ => rfl) table above
  rw [Class.link, Class.link, ids, layouts]

theorem overlooks_registerFile (file : ClassFile) (superclass : Option ClassId)
    (interfaces : List ClassId) : Overlooks meant change (register file superclass interfaces) :=
  overlooks_register unnoticed
    (fun table => Class.link table.nextId file (superclass.map table.get) interfaces)
    fun table => by rw [nextId_change unnoticed, link_change unnoticed]

theorem isInterface_change (table : ClassTable) (id : ClassId) :
    ((change table).get id).isInterface = (table.get id).isInterface :=
  unnoticed.view Class.isInterface (fun _ _ _ => rfl) table id

end

/-! ## Loading -/

section

variable {meant : ClassTable → Prop} {change : ClassTable → ClassTable}

mutual

theorem overlooks_loadClass (unnoticed : Unnoticed meant change) (path : ClassPath)
    (linking : List String) (name : String) :
    Overlooks meant change (loadClass path linking name) := by
  rw [loadClass]
  refine .get_bind (fun table _ => by rw [unnoticed.names]) fun table _ => ?_
  split
  next id _ => exact .pure id
  next =>
      split
      next => exact .throw _
      next fresh =>
          split
          next => exact .throw _
          next bytes found =>
              have fewer :=
                ClassPath.unvisited_cons_lt (ClassPath.mem_names_of_find? found) fresh
              exact (overlooks_ofExcept _).bind fun file =>
                overlooks_define unnoticed path (name :: linking) file
termination_by (path.unvisited linking, 0, 0)

theorem overlooks_load (unnoticed : Unnoticed meant change) (path : ClassPath)
    (linking : List String) (name : String) : Overlooks meant change (load path linking name) := by
  rw [load]
  split
  next array =>
      refine .get_bind (fun table _ => by rw [unnoticed.names]) fun table _ => ?_
      split
      next id _ => exact .pure id
      next =>
          split
          next => exact .throw _
          next kind found => exact overlooks_loadArray unnoticed path linking name kind none
          next inner found =>
              have shorter := ArrayName.length_component array found
              exact (overlooks_load unnoticed path linking inner).bind fun component =>
                overlooks_loadArray unnoticed path linking name .reference (some component)
  next => exact overlooks_loadClass unnoticed path linking name
termination_by (path.unvisited linking, 1, name.length)

/-- The ancestors that every array has, and the array itself. -/
theorem overlooks_loadArray (unnoticed : Unnoticed meant change) (path : ClassPath)
    (linking : List String) (name : String) (kind : Kind) (component : Option ClassId) :
    Overlooks meant change (do
      let object ← loadClass path linking ClassTable.objectName
      let cloneable ← loadClass path linking ClassTable.cloneableName
      let serializable ← loadClass path linking ClassTable.serializableName
      registerArray name kind component object [cloneable, serializable]) :=
  (overlooks_loadClass unnoticed path linking ClassTable.objectName).bind fun _ =>
    (overlooks_loadClass unnoticed path linking ClassTable.cloneableName).bind fun _ =>
    (overlooks_loadClass unnoticed path linking ClassTable.serializableName).bind fun _ =>
    overlooks_registerArray unnoticed name kind component _ _
termination_by (path.unvisited linking, 0, 1)

theorem overlooks_loadSuperclass (unnoticed : Unnoticed meant change) (path : ClassPath)
    (linking : List String) (file : ClassFile) :
    Overlooks meant change (loadSuperclass path linking file) := by
  rw [loadSuperclass]
  split
  next superclass _ =>
      refine (overlooks_load unnoticed path linking superclass).bind fun id => ?_
      refine .get_bind (fun table _ => ?_) fun table _ => ?_
      · rw [isInterface_change unnoticed]
      · split
        · exact (Overlooks.throw _).bind fun _ => .pure _
        · exact .pure _
  next =>
      split
      · exact .pure _
      · exact .throw _
termination_by (path.unvisited linking, 2, 0)

theorem overlooks_loadInterfaces (unnoticed : Unnoticed meant change) (path : ClassPath)
    (linking : List String) (name : String) (interfaces : List String) :
    Overlooks meant change (loadInterfaces path linking name interfaces) := by
  cases interfaces with
  | nil =>
      rw [loadInterfaces]
      exact .pure _
  | cons iface rest =>
      rw [loadInterfaces]
      refine (overlooks_load unnoticed path linking iface).bind fun id => ?_
      refine .get_bind (fun table _ => ?_) fun table _ => ?_
      · rw [isInterface_change unnoticed]
      · split
        · exact (Overlooks.throw _).bind fun _ =>
            (overlooks_loadInterfaces unnoticed path linking name rest).bind fun _ => .pure _
        · exact (overlooks_loadInterfaces unnoticed path linking name rest).bind fun _ => .pure _
termination_by (path.unvisited linking, 3, interfaces.length)

theorem overlooks_define (unnoticed : Unnoticed meant change) (path : ClassPath)
    (linking : List String) (file : ClassFile) :
    Overlooks meant change (define path linking file) := by
  rw [define]
  exact (overlooks_loadSuperclass unnoticed path linking file).bind fun superclass =>
    (overlooks_loadInterfaces unnoticed path linking file.name file.interfaces).bind
      fun interfaces => overlooks_registerFile unnoticed file superclass interfaces
termination_by (path.unvisited linking, 4, 0)

end

theorem overlooks_arrayOf (unnoticed : Unnoticed meant change) (path : ClassPath)
    (component : ClassId) : Overlooks meant change (arrayOf path component) := by
  refine .get_bind (fun table _ => ?_) fun table _ => overlooks_load unnoticed path [] _
  exact unnoticed.view (fun cls => load path [] (ArrayName.ofComponent cls.name cls.isArray))
    (fun _ _ _ => rfl) table component

end

end Linking

namespace Registry

/-- A registry whose table is changed. -/
def withTable (registry : Registry) (change : ClassTable → ClassTable) : Registry :=
  { registry with toClassTable := change registry.toClassTable }

/-- What is linked beside a change that linking overlooks is what is linked without it. -/
theorem link_withTable {α : Type} {meant : ClassTable → Prop} {change : ClassTable → ClassTable}
    (registry : Registry) {steps : ClassPath → Linking α}
    (overlooks : Overlooks meant change (steps registry.path))
    (holds : meant registry.toClassTable) :
    meant (registry.link steps).2.toClassTable ∧
      (registry.withTable change).link steps =
        ((registry.link steps).1, (registry.link steps).2.withTable change) := by
  simp only [link, EStateM.run, withTable]
  cases ran : steps registry.path registry.toClassTable with
  | ok value after =>
      obtain ⟨kept, same⟩ := overlooks.eq_of_ok holds ran
      exact ⟨kept, by rw [same]⟩
  | error error after =>
      obtain ⟨kept, same⟩ := overlooks.eq_of_error holds ran
      exact ⟨kept, by rw [same]⟩

/-- A registry with another pool in one of its classes. -/
def withPool (registry : Registry) (owner : ClassId) (pool : ConstantPool) : Registry :=
  { registry with toClassTable := registry.toClassTable.withPool owner pool }

/-- What is loaded beside another pool is what is loaded beside the pool that is there. -/
theorem load_withPool (registry : Registry) {owner : ClassId} (known : registry.Has owner)
    (pool : ConstantPool) (name : String) :
    (registry.withPool owner pool).load name =
      ((registry.load name).1, (registry.load name).2.withPool owner pool) :=
  (registry.link_withTable
    (Linking.overlooks_load (ClassTable.unnoticed_withPool owner pool) registry.path [] name)
    known).2

end Registry

end Jvm
