import Mathlib.Data.List.Forall2
import Mathlib.Logic.Relation
import Jvm.Proofs.Registry.Appending

/-!
# Registrations

Whatever is loaded, classes are registered one by one. A class is registered once the
table knows all that it names and while it does not know the class itself; a class from
a file is none of those being linked at the time. The class that is asked for comes
last, so a failure leaves its name unknown.

What holds of every registration therefore holds of all loading: the invariants of a
table are proved for one registration at a time.
-/

namespace Jvm

open ClassTable

/-! ## What a class needs -/

/-- Whether an array class needs another class: its component, or one of those that
every array class has above it. -/
inductive ArrayName.Needs (name : String) : String → Prop
  | component {inner : String} (found : ArrayName.component name = .ok (.named inner)) :
      Needs name inner
  | object : Needs name objectName
  | cloneable : Needs name cloneableName
  | serializable : Needs name serializableName

/-- Whether a class from a file needs another class: its superclass or an interface. -/
def ClassFile.Needs (file : ClassFile) (name : String) : Prop :=
  file.superclass = some name ∨ name ∈ file.interfaces

/-- Whether a table knows a class by its name, as an interface or not. -/
def ClassTable.Knows (table : ClassTable) (interface : Bool) (name : String) (id : ClassId) : Prop :=
  table.find? name = some id ∧ (table.get id).isInterface = interface

/-- Whether a table knows the ancestors that a class file names, each being of its sort.
Only the root names no superclass. -/
structure ClassFile.Above (table : ClassTable) (file : ClassFile) (superclass : Option ClassId)
    (interfaces : List ClassId) : Prop where
  nearest : ∀ name, file.superclass = some name →
    ∃ id, superclass = some id ∧ table.Knows false name id
  root : file.superclass = none → superclass = none ∧ file.name = objectName
  declared : List.Forall₂ (table.Knows true) file.interfaces interfaces

theorem ClassFile.Above.exists_of_needs {table : ClassTable} {file : ClassFile}
    {superclass : Option ClassId} {interfaces : List ClassId}
    (above : file.Above table superclass interfaces) {name : String} (needs : file.Needs name) :
    ∃ id, table.find? name = some id := by
  rcases needs with declared | member
  · obtain ⟨id, -, found, -⟩ := above.nearest name declared
    exact ⟨id, found⟩
  · obtain ⟨index, inside, rfl⟩ := List.mem_iff_getElem.mp member
    have inside' : index < interfaces.length := above.declared.length_eq ▸ inside
    exact ⟨interfaces[index], (above.declared.get inside inside').1⟩

/-- The class that is made up for an array. -/
def Class.ofArray (id : ClassId) (name : String) (element : Kind) (component : Option ClassId)
    (superclass : ClassId) (interfaces : List ClassId) : Class :=
  { id, name, flags := Access.isPublic ||| Access.isFinal ||| Access.isAbstract
    superclass := some superclass, interfaces, initState := .initialized
    array := some { dimensions := ArrayName.dimensions name, element, component } }

/-- Whether a table knows the component of an array class. -/
inductive ArrayName.Made (table : ClassTable) (name : String) : Kind → Option ClassId → Prop
  | primitive {kind : Kind} (found : ArrayName.component name = .ok (.primitive kind)) :
      Made table name kind none
  | component {inner : String} {id : ClassId}
      (found : ArrayName.component name = .ok (.named inner))
      (known : table.find? inner = some id) : Made table name .reference (some id)

/-- A file that a class path holds under a name of its own that is no array's. -/
structure ClassPath.Provides (path : ClassPath) (file : ClassFile) : Prop where
  loads : path.load file.name = .ok file
  ordinary : ArrayName.isArrayName file.name = false

namespace Linking

/-! ## One registration -/

/-- The registration of a class, from one of some files or of an array. -/
inductive Registers (source : ClassFile → Prop) (linking : List String) (table : ClassTable) :
    ClassTable → Prop
  | file {file : ClassFile} {superclass : Option ClassId} {interfaces : List ClassId} {cls : Class}
      (provided : source file) (fresh : file.name ∉ linking)
      (unnamed : table.find? file.name = none) (above : file.Above table superclass interfaces)
      (linked : Class.link table.nextId file (superclass.map table.get) interfaces = .ok cls) :
      Registers source linking table (table.register cls)
  | array {name : String} {kind : Kind} {component : Option ClassId}
      {object cloneable serializable : ClassId} (array : ArrayName.isArrayName name = true)
      (unnamed : table.find? name = none) (made : ArrayName.Made table name kind component)
      (root : table.find? objectName = some object)
      (first : table.find? cloneableName = some cloneable)
      (second : table.find? serializableName = some serializable) :
      Registers source linking table (table.register
        (Class.ofArray table.nextId name kind component object [cloneable, serializable]))

/-- Any number of registrations. -/
abbrev Extends (source : ClassFile → Prop) (linking : List String) :
    ClassTable → ClassTable → Prop :=
  Relation.ReflTransGen (Registers source linking)

section

variable {source : ClassFile → Prop} {linking : List String} {table before after : ClassTable}

/-- What a class is linked as. -/
structure Links (id : ClassId) (file : ClassFile) (superclass : Option Class)
    (interfaces : List ClassId) (cls : Class) : Prop where
  id : cls.id = id
  name : cls.name = file.name
  flags : cls.flags = file.flags
  superclass : cls.superclass = superclass.map (·.id)
  interfaces : cls.interfaces = interfaces
  array : cls.array = none

theorem links_of_link {id : ClassId} {file : ClassFile} {superclass : Option Class}
    {interfaces : List ClassId} {cls : Class}
    (linked : Class.link id file superclass interfaces = .ok cls) :
    Links id file superclass interfaces cls := by
  simp only [Class.link, bind, Except.bind, pure, Except.pure] at linked
  split at linked
  next => cases linked
  next =>
      split at linked
      next => cases linked
      next =>
          cases linked
          exact ⟨rfl, rfl, rfl, rfl, rfl, rfl⟩

/-- A registration adds one class under a name that was unknown. -/
theorem Registers.exists_register (registers : Registers source linking before after) :
    ∃ cls, after = before.register cls ∧ before.find? cls.name = none := by
  cases registers with
  | @file file superclass interfaces cls provided fresh unnamed above linked =>
      refine ⟨cls, rfl, ?_⟩
      rw [(links_of_link linked).name]
      exact unnamed
  | array array unnamed => exact ⟨_, rfl, unnamed⟩

theorem Registers.weaken {other : ClassFile → Prop} {fewer : List String}
    (registers : Registers source linking before after)
    (provides : ∀ file, source file → other file) (within : fewer ⊆ linking) :
    Registers other fewer before after := by
  cases registers with
  | file provided fresh unnamed above linked =>
      exact .file (provides _ provided) (fun member => fresh (within member)) unnamed above linked
  | array array unnamed made root first second =>
      exact .array array unnamed made root first second

theorem Extends.weaken {other : ClassFile → Prop} {fewer : List String}
    (extended : Extends source linking before after)
    (provides : ∀ file, source file → other file) (within : fewer ⊆ linking) :
    Extends other fewer before after :=
  Relation.ReflTransGen.mono (fun _ _ registers => Registers.weaken registers provides within)
    _ _ extended

/-! ## What registrations leave alone -/

/-- Whether the names of a table are those of its classes. -/
def Named (table : ClassTable) : Prop := ∀ name id, table.find? name = some id → table.Has id

theorem Registers.named (registers : Registers source linking before after)
    (named : Named before) : Named after := by
  obtain ⟨cls, rfl, -⟩ := registers.exists_register
  intro name id found
  rw [find?_register] at found
  split at found
  · cases found
    rw [Has, size_register]
    exact Nat.lt_succ_self _
  · exact (growsTo_register before cls).has (named name id found)

theorem Registers.find? (registers : Registers source linking before after) {name : String}
    {id : ClassId} (found : before.find? name = some id) : after.find? name = some id := by
  obtain ⟨cls, rfl, unnamed⟩ := registers.exists_register
  rw [find?_register, if_neg]
  · exact found
  · rintro rfl
    cases unnamed.symm.trans found

theorem Registers.get (registers : Registers source linking before after) {id : ClassId}
    (known : before.Has id) : after.get id = before.get id := by
  obtain ⟨cls, rfl, -⟩ := registers.exists_register
  exact get_register_of_has before cls known

theorem Registers.size (registers : Registers source linking before after) :
    after.size = before.size + 1 := by
  obtain ⟨cls, rfl, -⟩ := registers.exists_register
  exact size_register before cls

theorem Extends.named (extended : Extends source linking before after) (named : Named before) :
    Named after := by
  induction extended with
  | refl => exact named
  | tail _ registers ih => exact registers.named ih

theorem Extends.find? (extended : Extends source linking before after) {name : String}
    {id : ClassId} (found : before.find? name = some id) : after.find? name = some id := by
  induction extended with
  | refl => exact found
  | tail _ registers ih => exact registers.find? ih

theorem Extends.size_le (extended : Extends source linking before after) :
    before.size ≤ after.size := by
  induction extended with
  | refl => exact Nat.le_refl _
  | tail _ registers ih => exact Nat.le_trans ih (registers.size ▸ Nat.le_succ _)

theorem Extends.get (extended : Extends source linking before after) {id : ClassId}
    (known : before.Has id) : after.get id = before.get id := by
  induction extended with
  | refl => rfl
  | tail extended registers ih =>
      have has := Nat.lt_of_lt_of_le known (Extends.size_le extended)
      exact (registers.get has).trans ih

/-- A class that is known stays known. -/
theorem Extends.knows (extended : Extends source linking before after) (named : Named before)
    {interface : Bool} {name : String} {id : ClassId} (knows : before.Knows interface name id) :
    after.Knows interface name id := by
  refine ⟨Extends.find? extended knows.1, ?_⟩
  rw [Extends.get extended (named name id knows.1)]
  exact knows.2

/-! ## Names that stay unknown -/

/-- A class from a file is not registered while its name is being linked. -/
theorem unnamed_of_linking (extended : Extends source linking before after) {name : String}
    (ordinary : ArrayName.isArrayName name = false) (member : name ∈ linking)
    (unnamed : before.find? name = none) : after.find? name = none := by
  induction extended with
  | refl => exact unnamed
  | tail _ registers ih =>
      cases registers with
      | file _ fresh _ _ linked =>
          rw [find?_register, if_neg]
          · exact ih
          · rw [(links_of_link linked).name]
            rintro rfl
            exact fresh member
      | array array =>
          rw [find?_register, if_neg]
          · exact ih
          · rintro rfl
            cases array.symm.trans ordinary

/-- What an array class needs is known once the array class is registered. -/
theorem Registers.exists_of_array (registers : Registers source linking before after)
    (ordinary : ∀ file, source file → ArrayName.isArrayName file.name = false)
    {name inner : String} (array : ArrayName.isArrayName name = true)
    (unnamed : before.find? name = none) {id : ClassId} (found : after.find? name = some id)
    (needs : ArrayName.Needs name inner) : ∃ id, before.find? inner = some id := by
  cases registers with
  | @file file superclass interfaces cls provided _ _ _ linked =>
      rw [find?_register] at found
      split at found
      · next same =>
          rw [(links_of_link linked).name] at same
          subst same
          cases (ordinary file provided).symm.trans array
      · cases unnamed.symm.trans found
  | array _ _ made root first second =>
      rw [find?_register] at found
      split at found
      · next same =>
          cases same
          cases needs with
          | object => exact ⟨_, root⟩
          | cloneable => exact ⟨_, first⟩
          | serializable => exact ⟨_, second⟩
          | component described =>
              cases made with
              | primitive primitive => cases primitive.symm.trans described
              | component component known =>
                  cases component.symm.trans described
                  exact ⟨_, known⟩
      · cases unnamed.symm.trans found

theorem Extends.exists_of_array (extended : Extends source linking before after)
    (ordinary : ∀ file, source file → ArrayName.isArrayName file.name = false)
    {name inner : String} (array : ArrayName.isArrayName name = true)
    (unnamed : before.find? name = none) {id : ClassId} (found : after.find? name = some id)
    (needs : ArrayName.Needs name inner) : ∃ id, after.find? inner = some id := by
  induction extended generalizing id with
  | refl => cases unnamed.symm.trans found
  | @tail middle after extended registers ih =>
      cases here : middle.find? name with
      | some other =>
          obtain ⟨known, earlier⟩ := ih here
          exact ⟨known, registers.find? earlier⟩
      | none =>
          obtain ⟨known, earlier⟩ := registers.exists_of_array ordinary array here found needs
          exact ⟨known, registers.find? earlier⟩

end

/-! ## Loading, registration by registration -/

section

variable (path : ClassPath) (linking : List String) (name : String)

/-- How a name becomes known: it was, or its class is the last one to be registered. -/
inductive Obtains (before : ClassTable) : ClassTable → Prop
  | known {id : ClassId} (found : before.find? name = some id) : Obtains before before
  | registered {middle after : ClassTable} (extended : Extends path.Provides linking before middle)
      (unnamed : middle.find? name = none)
      (registers : Registers path.Provides linking middle after) : Obtains before after

/-- Whether loading a class goes registration by registration. -/
def Loads (step : Linking ClassId) (table : ClassTable) : Prop :=
  Ends step table
    (fun id after => Obtains path linking name table after ∧ after.find? name = some id)
    fun _ after => Extends path.Provides linking table after ∧ after.find? name = none

variable {path linking name}

theorem Obtains.extends {before after : ClassTable}
    (obtains : Obtains path linking name before after) :
    Extends path.Provides linking before after := by
  cases obtains with
  | known => exact .refl
  | registered extended _ registers => exact .tail extended registers

/-- An array class is not registered while a class that it needs is unknown. -/
theorem unnamed_of_failed {before after : ClassTable} {array : String}
    (extended : Extends path.Provides linking before after) (failed : after.find? name = none)
    (isArray : ArrayName.isArrayName array = true) (needs : ArrayName.Needs array name)
    (unknown : before.find? array = none) : after.find? array = none := by
  refine Option.eq_none_iff_forall_ne_some.mpr fun id known => ?_
  obtain ⟨other, found⟩ := Extends.exists_of_array extended (fun _ provided => provided.ordinary)
    isArray unknown known needs
  cases failed.symm.trans found

/-- Nor is it by the time that the class is known. -/
theorem Obtains.unnamed {before after : ClassTable} {array : String} {id : ClassId}
    (obtains : Obtains path linking name before after) (found : after.find? name = some id)
    (isArray : ArrayName.isArrayName array = true) (needs : ArrayName.Needs array name)
    (unknown : before.find? array = none) : after.find? array = none := by
  cases obtains with
  | known => exact unknown
  | @registered middle _ extended unnamed registers =>
      have earlier := unnamed_of_failed extended unnamed isArray needs unknown
      refine Option.eq_none_iff_forall_ne_some.mpr fun id known => ?_
      obtain ⟨other, found⟩ := registers.exists_of_array (fun _ provided => provided.ordinary)
        isArray earlier known needs
      cases unnamed.symm.trans found

end

/-! ## The recursion -/

/-- Whether a class file is linked with its ancestors once these are registered. -/
structure Defines (path : ClassPath) (linking : List String) (file : ClassFile)
    (before middle after : ClassTable) : Prop where
  extended : Extends path.Provides linking before middle
  exists_link : ∃ superclass interfaces cls, file.Above middle superclass interfaces ∧
    Class.link middle.nextId file (superclass.map middle.get) interfaces = .ok cls ∧
    after = middle.register cls

theorem ends_register {file : ClassFile} {superclass : Option ClassId}
    {interfaces : List ClassId} (table : ClassTable) :
    Ends (register file superclass interfaces) table
      (fun id after => id = table.nextId ∧ ∃ cls,
        Class.link table.nextId file (superclass.map table.get) interfaces = .ok cls ∧
        after = table.register cls)
      fun _ after => after = table := by
  rw [register, ends_bind, ends_get]
  cases linked : Class.link table.nextId file (superclass.map table.get) interfaces with
  | error error => exact ends_bind.mpr (ends_throw.mpr rfl)
  | ok cls => exact Ends.of_ok rfl ⟨(links_of_link linked).id, cls, rfl, rfl⟩

section

variable {path : ClassPath} {linking : List String} {name : String} {table : ClassTable}

/-- An array class that is known is not loaded again; one that is not is registered once
its component and the ancestors of all arrays are. -/
theorem loads_registerArray (array : ArrayName.isArrayName name = true) {start : ClassTable}
    (extended : Extends path.Provides linking start table) (unnamed : table.find? name = none)
    {kind : Kind} {component : Option ClassId} (made : ArrayName.Made table name kind component)
    {object cloneable serializable : ClassId} (root : table.find? objectName = some object)
    (first : table.find? cloneableName = some cloneable)
    (second : table.find? serializableName = some serializable) :
    Ends (registerArray name kind component object [cloneable, serializable]) table
      (fun id after => Obtains path linking name start after ∧ after.find? name = some id)
      fun _ _ => False := by
  refine Ends.of_ok rfl ⟨.registered extended unnamed ?_, ?_⟩
  · exact .array array unnamed made root first second
  · exact find?_register_self table (Class.ofArray table.nextId name kind component object _)

end

mutual

theorem loads_loadClass (path : ClassPath) (linking : List String) (name : String)
    (ordinary : ArrayName.isArrayName name = false) (table : ClassTable) (named : Named table) :
    Loads path linking name (loadClass path linking name) table := by
  rw [Loads, loadClass, ends_bind, ends_get]
  split
  next id found => exact ends_pure.mpr ⟨.known found, found⟩
  next unnamed =>
      split
      next => exact ends_throw.mpr ⟨.refl, unnamed⟩
      next fresh =>
          split
          next => exact ends_throw.mpr ⟨.refl, unnamed⟩
          next bytes found =>
              have fewer :=
                ClassPath.unvisited_cons_lt (ClassPath.mem_names_of_find? found) fresh
              cases parsed : ClassPath.read name bytes with
              | error error => exact ends_bind.mpr (ends_throw.mpr ⟨.refl, unnamed⟩)
              | ok file =>
                  have same := name_of_read parsed
                  subst same
                  have provided : path.Provides file :=
                    ⟨by rw [ClassPath.load, found]; exact parsed, ordinary⟩
                  have still : ∀ {after}, Extends path.Provides (file.name :: linking) table after →
                      Extends path.Provides linking table after ∧ after.find? file.name = none :=
                    fun extended =>
                      ⟨Extends.weaken extended (fun _ provided => provided) (List.subset_cons_self _ _),
                        unnamed_of_linking extended ordinary List.mem_cons_self unnamed⟩
                  refine (ends_define path (file.name :: linking) file table named).mono ?_ ?_
                  · rintro id after ⟨middle, rfl, extended, superclass, interfaces, cls, above, linked, rfl⟩
                    obtain ⟨extended, unnamed⟩ := still extended
                    refine ⟨.registered extended unnamed (.file provided fresh unnamed above linked), ?_⟩
                    rw [← (links_of_link linked).name]
                    exact find?_register_self middle cls
                  · exact fun _ after extended => still extended
termination_by (path.unvisited linking, 0, 0)

theorem loads_load (path : ClassPath) (linking : List String) (name : String)
    (table : ClassTable) (named : Named table) :
    Loads path linking name (load path linking name) table := by
  rw [load]
  split
  next array =>
      rw [Loads, ends_bind, ends_get]
      split
      next id found => exact ends_pure.mpr ⟨.known found, found⟩
      next unnamed =>
          split
          next => exact ends_throw.mpr ⟨.refl, unnamed⟩
          next kind found =>
              exact loads_loadArray path linking name array table table named .refl unnamed
                fun _ _ => .primitive found
          next inner found =>
              have shorter := ArrayName.length_component array found
              rw [ends_bind]
              refine (loads_load path linking inner table named).mono ?_ ?_
              · rintro component after ⟨obtains, known⟩
                have needs := ArrayName.Needs.component found
                exact loads_loadArray path linking name array table after
                  (Extends.named obtains.extends named) obtains.extends
                  (obtains.unnamed known array needs unnamed)
                  fun later extended => .component found (Extends.find? extended known)
              · rintro error after ⟨extended, failed⟩
                exact ⟨extended, unnamed_of_failed extended failed array (.component found) unnamed⟩
  next ordinary =>
      exact loads_loadClass path linking name (Bool.eq_false_iff.mpr ordinary) table named
termination_by (path.unvisited linking, 1, name.length)

/-- The ancestors that every array has, and the array itself. -/
theorem loads_loadArray (path : ClassPath) (linking : List String) (name : String)
    (array : ArrayName.isArrayName name = true) {kind : Kind} {component : Option ClassId}
    (start table : ClassTable) (named : Named table)
    (begun : Extends path.Provides linking start table) (unnamed : table.find? name = none)
    (made : ∀ after, Extends path.Provides linking table after →
      ArrayName.Made after name kind component) :
    Ends (do
      let object ← loadClass path linking objectName
      let cloneable ← loadClass path linking cloneableName
      let serializable ← loadClass path linking serializableName
      registerArray name kind component object [cloneable, serializable]) table
      (fun id after => Obtains path linking name start after ∧ after.find? name = some id)
      fun _ after => Extends path.Provides linking start after ∧ after.find? name = none := by
  rw [ends_bind]
  refine (loads_loadClass path linking objectName rfl table named).mono ?_ ?_
  on_goal 2 =>
    rintro error after ⟨extended, failed⟩
    exact ⟨begun.trans extended, unnamed_of_failed extended failed array .object unnamed⟩
  rintro object first ⟨obtains, root⟩
  have one := obtains.extends
  have unnamed := obtains.unnamed root array .object unnamed
  rw [ends_bind]
  refine (loads_loadClass path linking cloneableName rfl first (Extends.named one named)).mono ?_ ?_
  on_goal 2 =>
    rintro error after ⟨extended, failed⟩
    exact ⟨(begun.trans one).trans extended,
      unnamed_of_failed extended failed array .cloneable unnamed⟩
  rintro cloneable second ⟨obtains, known⟩
  have two := one.trans obtains.extends
  have root := Extends.find? obtains.extends root
  have unnamed := obtains.unnamed known array .cloneable unnamed
  rw [ends_bind]
  refine (loads_loadClass path linking serializableName rfl second (Extends.named two named)).mono ?_ ?_
  on_goal 2 =>
    rintro error after ⟨extended, failed⟩
    exact ⟨(begun.trans two).trans extended,
      unnamed_of_failed extended failed array .serializable unnamed⟩
  rintro serializable third ⟨obtains, last⟩
  have three := two.trans obtains.extends
  refine (loads_registerArray array (begun.trans three)
    (obtains.unnamed last array .serializable unnamed) (made third three)
    (Extends.find? obtains.extends root) (Extends.find? obtains.extends known) last).mono ?_ ?_
  · exact fun _ _ reached => reached
  · exact fun _ _ never => never.elim
termination_by (path.unvisited linking, 0, 1)

theorem ends_loadSuperclass (path : ClassPath) (linking : List String) (file : ClassFile)
    (table : ClassTable) (named : Named table) :
    Ends (loadSuperclass path linking file) table
      (fun superclass after => Extends path.Provides linking table after ∧
        (∀ name, file.superclass = some name →
          ∃ id, superclass = some id ∧ after.Knows false name id) ∧
        (file.superclass = none → superclass = none ∧ file.name = objectName))
      fun _ after => Extends path.Provides linking table after := by
  rw [loadSuperclass]
  split
  next superclass declared =>
      rw [ends_bind]
      refine (loads_load path linking superclass table named).mono ?_ ?_
      · rintro id after ⟨obtains, found⟩
        rw [ends_bind, ends_get]
        split
        · exact ends_bind.mpr (ends_throw.mpr obtains.extends)
        · next sort =>
          refine ends_pure.mpr ⟨obtains.extends, ?_, fun missing => nomatch declared.symm.trans missing⟩
          intro name named
          cases declared.symm.trans named
          exact ⟨id, rfl, found, Bool.eq_false_iff.mpr sort⟩
      · exact fun _ after failed => failed.1
  next missing =>
      split
      · next root =>
        refine ends_pure.mpr ⟨.refl, ?_, fun _ => ⟨rfl, eq_of_beq root⟩⟩
        exact fun _ declared => nomatch missing.symm.trans declared
      · exact ends_throw.mpr .refl
termination_by (path.unvisited linking, 2, 0)

theorem ends_loadInterfaces (path : ClassPath) (linking : List String) (name : String)
    (interfaces : List String) (table : ClassTable) (named : Named table) :
    Ends (loadInterfaces path linking name interfaces) table
      (fun ids after => Extends path.Provides linking table after ∧
        List.Forall₂ (after.Knows true) interfaces ids)
      fun _ after => Extends path.Provides linking table after := by
  cases interfaces with
  | nil =>
      rw [loadInterfaces]
      exact ends_pure.mpr ⟨.refl, .nil⟩
  | cons iface rest =>
      rw [loadInterfaces, ends_bind]
      refine (loads_load path linking iface table named).mono ?_ ?_
      on_goal 2 => exact fun _ after failed => failed.1
      rintro id middle ⟨obtains, found⟩
      have begun := obtains.extends
      rw [ends_bind, ends_get]
      split
      · exact ends_bind.mpr (ends_throw.mpr begun)
      · next sort =>
        have sort : (middle.get id).isInterface = true := by simpa using sort
        have known := Extends.named begun named
        rw [ends_bind]
        refine (ends_loadInterfaces path linking name rest middle known).mono ?_ ?_
        · rintro others after ⟨extended, declared⟩
          exact ends_pure.mpr ⟨begun.trans extended,
            .cons (Extends.knows extended known ⟨found, sort⟩) declared⟩
        · exact fun _ after extended => begun.trans extended
termination_by (path.unvisited linking, 3, interfaces.length)

theorem ends_define (path : ClassPath) (linking : List String) (file : ClassFile)
    (table : ClassTable) (named : Named table) :
    Ends (define path linking file) table
      (fun id after => ∃ middle, id = middle.nextId ∧ Defines path linking file table middle after)
      fun _ after => Extends path.Provides linking table after := by
  rw [define, ends_bind]
  refine (ends_loadSuperclass path linking file table named).mono ?_ fun _ _ extended => extended
  rintro superclass first ⟨begun, nearest, root⟩
  have known := Extends.named begun named
  rw [ends_bind]
  refine (ends_loadInterfaces path linking file.name file.interfaces first known).mono ?_
    fun _ _ extended => begun.trans extended
  rintro interfaces second ⟨extended, declared⟩
  refine (ends_register second).mono ?_ ?_
  · rintro id after ⟨rfl, cls, linked, rfl⟩
    have above : file.Above second superclass interfaces := by
      refine ⟨fun name found => ?_, root, declared⟩
      obtain ⟨id, same, knows⟩ := nearest name found
      exact ⟨id, same, Extends.knows extended known knows⟩
    exact ⟨second, rfl, begun.trans extended, superclass, interfaces, cls, above, linked, rfl⟩
  · rintro error after rfl
    exact begun.trans extended
termination_by (path.unvisited linking, 4, 0)

end

end Linking

end Jvm
