import Jvm.Proofs.ClassFile.Reading
import Jvm.Proofs.Effects
import Jvm.Proofs.Registry.Closed
import Jvm.Registry.Load

/-!
# Linking appends

Loading leaves the classes of a table as they are and puts new ones behind them,
under names that the table did not know. A name that was known goes on naming the
same class. A class from a file starts uninitialized; an array class has nothing
to initialize.
-/

namespace Jvm

/-- Whether a class is as linking makes it. -/
structure Class.Newborn (cls : Class) : Prop where
  statics : cls.statics = none
  state : cls.initState = if cls.array.isSome then .initialized else .uninitialized
  fields : cls.array.isSome = true → cls.fields = []
  methods : cls.methods.size ≤ UInt16.size
  pool : cls.pool.IsSymbolic
  monitor : cls.monitor = Monitor.free

/-- Whether a table has come from another one by the registration of new classes under
new names. -/
structure ClassTable.Prefixes (before after : ClassTable) : Prop where
  size : before.size ≤ after.size
  classes : ∀ id, before.Has id → after.get id = before.get id
  names : ∀ name id, before.find? name = some id → after.find? name = some id
  found : ∀ name id, after.find? name = some id → before.find? name = some id ∨ ¬before.Has id
  fresh : ∀ id, after.Has id → ¬before.Has id →
    (after.get id).Newborn ∧ before.find? (after.get id).name = none

namespace ClassTable.Prefixes

variable {first second third : ClassTable}

theorem refl (table : ClassTable) : table.Prefixes table where
  size := Nat.le_refl _
  classes _ _ := rfl
  names _ _ found := found
  found _ _ found := .inl found
  fresh _ known unknown := (unknown known).elim

theorem has (left : first.Prefixes second) {id : ClassId} (known : first.Has id) :
    second.Has id :=
  Nat.lt_of_lt_of_le known left.size

theorem class? (left : first.Prefixes second) {id : ClassId} {cls : Class}
    (linked : first.class? id = some cls) : second.class? id = some cls := by
  obtain ⟨known, rfl⟩ := Array.getElem?_eq_some_iff.mp linked
  have same := left.classes id known
  rw [get, get, Array.getD_eq_getD_getElem?, Array.getD_eq_getD_getElem?,
    Array.getElem?_eq_getElem known, Array.getElem?_eq_getElem (left.has known),
    Option.getD_some, Option.getD_some] at same
  rw [ClassTable.class?, Array.getElem?_eq_getElem (left.has known), same]

theorem find?_eq_none (left : first.Prefixes second) {name : String}
    (unknown : second.find? name = none) : first.find? name = none := by
  cases found : first.find? name with
  | none => rfl
  | some id => cases unknown.symm.trans (left.names name id found)

theorem trans (left : first.Prefixes second) (right : second.Prefixes third) :
    first.Prefixes third where
  size := Nat.le_trans left.size right.size
  classes id known := (right.classes id (left.has known)).trans (left.classes id known)
  names name id found := right.names name id (left.names name id found)
  found name id found := by
    rcases right.found name id found with middle | unknown
    · exact left.found name id middle
    · exact .inr fun known => unknown (left.has known)
  fresh id known unknown := by
    by_cases middle : second.Has id
    · rw [right.classes id middle]
      exact left.fresh id middle unknown
    · obtain ⟨newborn, unnamed⟩ := right.fresh id known middle
      exact ⟨newborn, left.find?_eq_none unnamed⟩

/-- A class may be registered once others were, if its name was not known to begin
with. -/
theorem register (left : first.Prefixes second) {cls : Class}
    (unnamed : first.find? cls.name = none) (newborn : cls.Newborn) :
    first.Prefixes (second.register cls) where
  size := by
    rw [size_register]
    exact Nat.le_succ_of_le left.size
  classes id known := by
    rw [get_register_of_has second cls (left.has known)]
    exact left.classes id known
  names name id found := by
    rw [find?_register, if_neg]
    · exact left.names name id found
    · rintro rfl
      cases unnamed.symm.trans found
  found name id found := by
    rw [find?_register] at found
    split at found
    · cases found
      exact .inr (Nat.not_lt_of_le left.size)
    · exact left.found name id found
  fresh id known unknown := by
    rcases has_register second cls known with before | rfl
    · rw [get_register_of_has second cls before]
      exact left.fresh id before unknown
    · rw [get_register_nextId]
      exact ⟨newborn, unnamed⟩

end ClassTable.Prefixes

instance : Trans ClassTable.Prefixes ClassTable.Prefixes ClassTable.Prefixes :=
  ⟨ClassTable.Prefixes.trans⟩

namespace Linking

open ClassTable

variable {table start : ClassTable}

theorem length_of_mapM {α β : Type} {convert : α → Except LoadError β} {items : List α}
    {converted : List β} (ran : items.mapM convert = .ok converted) :
    converted.length = items.length := by
  induction items generalizing converted with
  | nil =>
      cases ran
      rfl
  | cons item items ih =>
      simp only [List.mapM_cons, bind, Except.bind, pure, Except.pure] at ran
      split at ran
      next => cases ran
      next =>
          split at ran
          next => cases ran
          next rest found =>
              cases ran
              exact congrArg (· + 1) (ih found)

theorem newborn_link {id : ClassId} {file : ClassFile} {superclass : Option Class}
    {interfaces : List ClassId} {cls : Class}
    (linked : Class.link id file superclass interfaces = .ok cls)
    (parsed : file.Parsed) :
    cls.id = id ∧ cls.name = file.name ∧ cls.Newborn := by
  simp only [Class.link, bind, Except.bind, pure, Except.pure] at linked
  split at linked
  next => cases linked
  next =>
      split at linked
      next => cases linked
      next methods converted =>
          cases linked
          refine ⟨rfl, rfl, rfl, rfl, ?_, ?_, parsed.pool, rfl⟩
          · rintro ⟨⟩
          · change methods.length ≤ UInt16.size
            rw [length_of_mapM converted]
            exact parsed.methods

theorem parsed_of_read {name : String} {bytes : Array UInt8} {file : ClassFile}
    (found : ClassPath.read name bytes = .ok file) : file.Parsed := by
  simp only [ClassPath.read, bind, Except.bind] at found
  split at found
  next => cases found
  next parsed _ =>
      split at found
      next =>
          cases found
          exact ClassFile.parsed_of_parse ‹_›
      next => cases found

theorem name_of_read {name : String} {bytes : Array UInt8} {file : ClassFile}
    (found : ClassPath.read name bytes = .ok file) : file.name = name := by
  simp only [ClassPath.read, bind, Except.bind] at found
  split at found
  next => cases found
  next =>
      split at found
      next same =>
          cases found
          exact same
      next => cases found

theorem find?_register_self (table : ClassTable) (cls : Class) :
    (table.register cls).find? cls.name = some table.nextId := by
  rw [find?_register, if_pos rfl]

theorem appends_register (begun : start.Prefixes table) {file : ClassFile}
    (parsed : file.Parsed) (unnamed : start.find? file.name = none) (superclass : Option ClassId)
    (interfaces : List ClassId) :
    Moves (fun _ => start.Prefixes) (register file superclass interfaces) table
      fun id after => after.find? file.name = some id := by
  rw [register]
  refine Moves.get_bind ?_
  cases linked : Class.link table.nextId file (superclass.map table.get) interfaces with
  | error error => exact Moves.throw_bind begun
  | ok cls =>
      obtain ⟨id, name, newborn⟩ := newborn_link linked parsed
      refine Moves.of_ok rfl (begun.register (name ▸ unnamed) newborn) ?_
      rw [← name, id]
      exact find?_register_self table cls

theorem appends_registerArray (begun : start.Prefixes table) {name : String}
    (unnamed : start.find? name = none) (element : Kind) (component : Option ClassId)
    (superclass : ClassId) (interfaces : List ClassId) :
    Moves (fun _ => start.Prefixes) (registerArray name element component superclass interfaces)
      table fun id after => after.find? name = some id :=
  Moves.of_ok rfl
    (begun.register unnamed ⟨rfl, rfl, fun _ => rfl, Nat.zero_le _, fun _ => trivial, rfl⟩)
    (find?_register_self table _)

/-! ## Loading -/

mutual

theorem appends_loadClass (path : ClassPath) (linking : List String) (name : String)
    (table : ClassTable) :
    Moves Prefixes (loadClass path linking name) table
      fun id after => after.find? name = some id := by
  rw [loadClass]
  refine Moves.get_bind ?_
  split
  next id found => exact Moves.pure (.refl table) found
  next unnamed =>
      split
      next => exact Moves.throw (.refl table)
      next fresh =>
          split
          next => exact Moves.throw (.refl table)
          next bytes found =>
              have fewer :=
                ClassPath.unvisited_cons_lt (ClassPath.mem_names_of_find? found) fresh
              cases parsed : ClassPath.read name bytes with
              | error error => exact Moves.throw_bind (.refl table)
              | ok file =>
                  have whole := parsed_of_read parsed
                  have same := name_of_read parsed
                  subst same
                  exact appends_define path (file.name :: linking) file whole table unnamed
termination_by (path.unvisited linking, 0, 0)

theorem appends_load (path : ClassPath) (linking : List String) (name : String)
    (table : ClassTable) :
    Moves Prefixes (load path linking name) table
      fun id after => after.find? name = some id := by
  rw [load]
  split
  next array =>
      refine Moves.get_bind ?_
      split
      next id found => exact Moves.pure (.refl table) found
      next unnamed =>
          split
          next => exact Moves.throw (.refl table)
          next kind found =>
              exact appends_loadArray path linking name kind none table table (.refl table) unnamed
          next inner found =>
              have shorter := ArrayName.length_component array found
              refine (appends_load path linking inner table).bind_from ?_
              intro component after begun _
              exact appends_loadArray path linking name .reference (some component) table after
                begun unnamed
  next => exact appends_loadClass path linking name table
termination_by (path.unvisited linking, 1, name.length)

/-- The ancestors that every array has, and the array itself. -/
theorem appends_loadArray (path : ClassPath) (linking : List String) (name : String) (kind : Kind)
    (component : Option ClassId) (start table : ClassTable) (begun : start.Prefixes table)
    (unnamed : start.find? name = none) :
    Moves (fun _ => start.Prefixes) (do
      let object ← loadClass path linking ClassTable.objectName
      let cloneable ← loadClass path linking ClassTable.cloneableName
      let serializable ← loadClass path linking ClassTable.serializableName
      registerArray name kind component object [cloneable, serializable]) table
      fun id after => after.find? name = some id := by
  refine ((appends_loadClass path linking ClassTable.objectName table).of_related
    fun _ => begun.trans).bind_from ?_
  intro object first one _
  refine ((appends_loadClass path linking ClassTable.cloneableName first).of_related
    fun _ => one.trans).bind_from ?_
  intro cloneable second two _
  refine ((appends_loadClass path linking ClassTable.serializableName second).of_related
    fun _ => two.trans).bind_from ?_
  intro serializable third three _
  exact appends_registerArray three unnamed kind component object _
termination_by (path.unvisited linking, 0, 1)

theorem appends_loadSuperclass (path : ClassPath) (linking : List String) (file : ClassFile)
    (table : ClassTable) :
    Moves Prefixes (loadSuperclass path linking file) table fun _ _ => True := by
  rw [loadSuperclass]
  split
  next superclass _ =>
      refine (appends_load path linking superclass table).bind ?_
      intro id after begun _
      refine Moves.get_bind ?_
      split
      · exact Moves.throw_bind (.refl after)
      · exact Moves.pure (.refl after) trivial
  next =>
      split
      · exact Moves.pure (.refl table) trivial
      · exact Moves.throw (.refl table)
termination_by (path.unvisited linking, 2, 0)

theorem appends_loadInterfaces (path : ClassPath) (linking : List String) (name : String)
    (interfaces : List String) (table : ClassTable) :
    Moves Prefixes (loadInterfaces path linking name interfaces) table fun _ _ => True := by
  cases interfaces with
  | nil =>
      rw [loadInterfaces]
      exact Moves.pure (.refl table) trivial
  | cons iface rest =>
      rw [loadInterfaces]
      refine (appends_load path linking iface table).bind ?_
      intro id middle begun _
      refine Moves.get_bind ?_
      split
      · exact Moves.throw_bind (.refl middle)
      · refine (appends_loadInterfaces path linking name rest middle).bind ?_
        exact fun others after _ _ => Moves.pure (.refl after) trivial
termination_by (path.unvisited linking, 3, interfaces.length)

theorem appends_define (path : ClassPath) (linking : List String) (file : ClassFile)
    (parsed : file.Parsed) (table : ClassTable) (unnamed : table.find? file.name = none) :
    Moves Prefixes (define path linking file) table
      fun id after => after.find? file.name = some id := by
  rw [define]
  refine (appends_loadSuperclass path linking file table).bind_from ?_
  intro superclass first begun _
  refine ((appends_loadInterfaces path linking file.name file.interfaces first).of_related
    fun _ => begun.trans).bind_from ?_
  intro interfaces second linked _
  exact appends_register linked parsed unnamed superclass interfaces
termination_by (path.unvisited linking, 4, 0)

end

theorem appends_defineClass (path : ClassPath) (bytes : Array UInt8) :
    Moves Prefixes (defineClass path bytes) table fun _ _ => True := by
  rw [defineClass]
  cases ran : ClassFile.parse bytes with
  | error error => exact Moves.throw_bind (.refl table)
  | ok file =>
      have parsed := ClassFile.parsed_of_parse ran
      simp only [ofExcept, pure_bind]
      refine Moves.get_bind ?_
      split
      · exact Moves.throw (.refl table)
      · next unnamed =>
          exact (appends_define path [file.name] file parsed table unnamed).mono
            fun _ _ _ _ => trivial

theorem appends_arrayOf (path : ClassPath) (component : ClassId) :
    Moves Prefixes (arrayOf path component) table fun _ _ => True :=
  Moves.get_bind ((appends_load path [] _ table).mono fun _ _ _ _ => trivial)

end Linking

namespace Registry

variable (registry : Registry)

theorem prefixes_link {α : Type} {returned : α → ClassTable → Prop} (steps : ClassPath → Linking α)
    (moves : Moves ClassTable.Prefixes (steps registry.path) registry.toClassTable returned) :
    registry.Prefixes (registry.link steps).2.toClassTable ∧
      ∀ value, (registry.link steps).1 = .ok value →
        returned value (registry.link steps).2.toClassTable := by
  simp only [Moves, Ends] at moves
  rw [link, EStateM.run]
  split
  next id table ran =>
      rw [ran] at moves
      refine ⟨moves.1, ?_⟩
      rintro _ ⟨⟩
      exact moves.2
  next error table ran =>
      rw [ran] at moves
      refine ⟨moves, ?_⟩
      rintro _ ⟨⟩

theorem prefixes_load (name : String) :
    registry.Prefixes (registry.load name).2.toClassTable ∧
      ∀ id, (registry.load name).1 = .ok id → (registry.load name).2.find? name = some id :=
  registry.prefixes_link (fun path => Linking.load path [] name)
    (Linking.appends_load registry.path [] name _)

theorem prefixes_defineClass (bytes : Array UInt8) :
    registry.Prefixes (registry.defineClass bytes).2.toClassTable :=
  (registry.prefixes_link (fun path => Linking.defineClass path bytes)
    (Linking.appends_defineClass registry.path bytes)).1

theorem prefixes_arrayOf (component : ClassId) :
    registry.Prefixes (registry.arrayOf component).2.toClassTable :=
  (registry.prefixes_link (fun path => Linking.arrayOf path component)
    (Linking.appends_arrayOf registry.path component)).1

end Registry

end Jvm
