import Jvm.Proofs.Registry.Requests

/-!
# Why classes do not load

Loading a class fails by one of the classes that it needs: the class path has no file of
that class, the name is a misspelt one of an array, the file cannot be read or linked, or the
class needs itself. So the failure lies in the name that was asked for, in a file that is
missing, or in a class file of the path.
-/

open Relation (ReflTransGen TransGen)

namespace Jvm

open ClassTable

/-! ## Faults -/

/-- Whether an error lies in the name of an array class, be it in the name of a component. -/
inductive ArrayName.Misspelt : String → LoadError → Prop
  | here {name : String} {error : LoadError} (array : ArrayName.isArrayName name = true)
      (refused : ArrayName.component name = .error error) : Misspelt name error
  | component {name inner : String} {error : LoadError} (array : ArrayName.isArrayName name = true)
      (found : ArrayName.component name = .ok (.named inner)) (within : Misspelt inner error) :
      Misspelt name error

/-- What is wrong with a misspelt name is its format. -/
theorem ArrayName.exists_fault_of_component {name : String} {error : LoadError}
    (refused : ArrayName.component name = .error error) :
    ∃ fault, error = .invalidFormat fault := by
  unfold ArrayName.component at refused
  split at refused
  · cases refused
    exact ⟨_, rfl⟩
  · dsimp only at refused
    split at refused
    · cases refused
    · split at refused
      · cases refused
      · split at refused
        · split at refused <;> cases refused
          exact ⟨_, rfl⟩
        · cases refused
          exact ⟨_, rfl⟩

theorem ArrayName.Misspelt.isArrayName {name : String} {error : LoadError}
    (misspelt : ArrayName.Misspelt name error) : ArrayName.isArrayName name = true := by
  cases misspelt with
  | here array | component array => exact array

/-- Whether an error lies in a class file that was read: in its members, in its having no
superclass, or in the sort of an ancestor that a table knows. -/
inductive ClassFile.Unlinkable (file : ClassFile) (table : ClassTable) : LoadError → Prop
  | rootless (missing : file.superclass = none) (other : file.name ≠ objectName) :
      Unlinkable file table (.invalidFormat (.noSuperclass file.name))
  | superclass {name : String} {id : ClassId} (declared : file.superclass = some name)
      (known : table.Knows true name id) :
      Unlinkable file table (.verifyFailed (.interfaceAsSuperclass file.name name))
  | interface {name : String} {id : ClassId} (declared : name ∈ file.interfaces)
      (known : table.Knows false name id) :
      Unlinkable file table (.verifyFailed (.implementsClass file.name name))
  | members {id : ClassId} {superclass : Option Class} {interfaces : List ClassId}
      {error : LoadError} (refused : Class.link id file superclass interfaces = .error error) :
      Unlinkable file table error

namespace ClassPath

/-- Whether an error lies in a class file that a path holds under a name: it cannot be read,
it is of a class that needs itself, it cannot be linked, or it names an array class by a
misspelt name. -/
inductive FileFault (path : ClassPath) (table : ClassTable) (name : String) : LoadError → Prop
  | unreadable {bytes : Array UInt8} {error : LoadError} (found : path.find? name = some bytes)
      (refused : read name bytes = .error error) : FileFault path table name error
  | cyclic {file : ClassFile} (loads : path.load name = .ok file) (cycle : path.OnCycle name) :
      FileFault path table name (.circularity name)
  | unlinkable {file : ClassFile} {error : LoadError} (loads : path.load name = .ok file)
      (unlinkable : file.Unlinkable table error) : FileFault path table name error
  | misnaming {file : ClassFile} {inner : String} {error : LoadError}
      (loads : path.load name = .ok file) (needs : file.Needs inner)
      (misspelt : ArrayName.Misspelt inner error) : FileFault path table name error

/-- Whether an error lies in a class: no file of it is there, its name is a misspelt one of an
array, or its file is at fault. -/
inductive Fault (path : ClassPath) (table : ClassTable) (name : String) : LoadError → Prop
  | missing (ordinary : ArrayName.isArrayName name = false) (absent : path.find? name = none)
      (unknown : table.find? name = none) : Fault path table name (.notFound name)
  | misspelt {error : LoadError} (array : ArrayName.isArrayName name = true)
      (refused : ArrayName.component name = .error error) : Fault path table name error
  | file {error : LoadError} (ordinary : ArrayName.isArrayName name = false)
      (fault : FileFault path table name error) : Fault path table name error

variable {path : ClassPath} {table : ClassTable} {name : String} {error : LoadError}

/-- Why a class does not load, by the name that is asked for: a class that it needs is
missing, the name is misspelt, or a class file on the way is at fault. -/
inductive Refuses (path : ClassPath) (table : ClassTable) (name : String) : LoadError → Prop
  | missing {other : String} (reached : ReflTransGen path.Needs name other)
      (absent : path.find? other = none) (unknown : table.find? other = none) :
      Refuses path table name (.notFound other)
  | misspelt {error : LoadError} (misspelt : ArrayName.Misspelt name error) :
      Refuses path table name error
  | file {other : String} {error : LoadError} (reached : ReflTransGen path.Needs name other)
      (fault : path.FileFault table other error) : Refuses path table name error

/-- A fault of a class that is needed lies in one of three places. -/
theorem Fault.refuses {other : String} (fault : path.Fault table other error)
    (reached : ReflTransGen path.Needs name other) : path.Refuses table name error := by
  induction reached using ReflTransGen.head_induction_on with
  | refl =>
      cases fault with
      | missing _ absent unknown => exact .missing .refl absent unknown
      | misspelt array refused => exact .misspelt (.here array refused)
      | file _ fault => exact .file .refl fault
  | head needs _ ih =>
      cases ih with
      | missing reached absent unknown => exact .missing (.head needs reached) absent unknown
      | file reached fault => exact .file (.head needs reached) fault
      | misspelt misspelt =>
          cases needs with
          | file _ loads needs => exact .file .refl (.misnaming loads needs misspelt)
          | array array needs =>
              cases needs with
              | component found => exact .misspelt (.component array found misspelt)
              | object | cloneable | serializable => cases misspelt.isArrayName

end ClassPath

namespace Linking

variable {path : ClassPath} {linking : List String} {name : String} {α : Type}

/-- Whether a step fails, if it does, by a class that a class needs. -/
def Blames (path : ClassPath) (name : String) (step : Linking α) (table : ClassTable) : Prop :=
  Ends step table (fun _ _ => True) fun error after =>
    ∃ other, ReflTransGen path.Needs name other ∧ path.Fault after other error

theorem Blames.of_needs {step : Linking α} {table : ClassTable} {inner : String}
    (needs : path.Needs name inner) (blames : Blames path inner step table) :
    Blames path name step table := by
  refine Ends.mono blames (fun _ _ _ => trivial) ?_
  rintro error after ⟨other, reached, fault⟩
  exact ⟨other, .head needs reached, fault⟩

/-- Whether every class that is being linked needs a class, so that it must not come up
again. -/
def Awaits (path : ClassPath) (linking : List String) (name : String) : Prop :=
  ∀ other ∈ linking, TransGen path.Needs other name

theorem Awaits.needs {inner : String} (awaits : Awaits path linking name)
    (needs : path.Needs name inner) : Awaits path linking inner :=
  fun other member => .tail (awaits other member) needs

/-- What a class needs is awaited by the class as well. -/
theorem Awaits.cons {inner : String} (awaits : Awaits path linking name)
    (needs : path.Needs name inner) : Awaits path (name :: linking) inner := by
  intro other member
  rcases List.mem_cons.mp member with rfl | member
  · exact .single needs
  · exact awaits.needs needs other member

/-- Behind a class that has been loaded the table knows it. -/
theorem Blames.bind_loads {step : Linking ClassId} {next : ClassId → Linking α}
    {table : ClassTable} {inner : String} (first : Blames path name step table)
    (loads : Loads path linking inner step table) (named : Named table)
    (rest : ∀ id after, Named after → after.find? inner = some id →
      Blames path name (next id) after) : Blames path name (step >>= next) table := by
  rw [Blames, ends_bind]
  refine (Ends.and loads first).mono ?_ fun _ _ failed => failed.2
  rintro id after ⟨⟨obtains, found⟩, -⟩
  exact rest id after (Extends.named obtains.extends named) found

mutual

theorem blames_loadClass (path : ClassPath) (linking : List String) (name : String)
    (ordinary : ArrayName.isArrayName name = false) (awaits : Awaits path linking name)
    (table : ClassTable) (named : Named table) :
    Blames path name (loadClass path linking name) table := by
  rw [Blames, loadClass, ends_bind, ends_get]
  split
  next => exact ends_pure.mpr trivial
  next unnamed =>
      split
      next member =>
          have cycle : path.OnCycle name := awaits name member
          obtain ⟨other, needs, -⟩ := cycle.exists_needs
          cases needs with
          | file _ loads _ => exact ends_throw.mpr ⟨name, .refl, .file ordinary (.cyclic loads cycle)⟩
          | array array => cases ordinary.symm.trans array
      next fresh =>
          split
          next absent => exact ends_throw.mpr ⟨name, .refl, .missing ordinary absent unnamed⟩
          next bytes found =>
              have fewer :=
                ClassPath.unvisited_cons_lt (ClassPath.mem_names_of_find? found) fresh
              cases parsed : ClassPath.read name bytes with
              | error error =>
                  exact ends_bind.mpr
                    (ends_throw.mpr ⟨name, .refl, .file ordinary (.unreadable found parsed)⟩)
              | ok file =>
                  have same := name_of_read parsed
                  subst same
                  have loads : path.load file.name = .ok file := by
                    rw [ClassPath.load, found]
                    exact parsed
                  exact blames_define path (file.name :: linking) file ordinary loads
                    (fun inner needs => awaits.cons needs) table named
termination_by (path.unvisited linking, 0, 0)

theorem blames_load (path : ClassPath) (linking : List String) (name : String)
    (awaits : Awaits path linking name) (table : ClassTable) (named : Named table) :
    Blames path name (load path linking name) table := by
  rw [load]
  split
  next array =>
      rw [Blames, ends_bind, ends_get]
      split
      next => exact ends_pure.mpr trivial
      next unnamed =>
          split
          next error refused => exact ends_throw.mpr ⟨name, .refl, .misspelt array refused⟩
          next kind found => exact blames_loadArray path linking name array awaits kind none table named
          next inner found =>
              have shorter := ArrayName.length_component array found
              have needs : path.Needs name inner := .array array (.component found)
              have within := blames_load path linking inner (awaits.needs needs) table named
              exact (within.of_needs needs).bind_loads (loads_load path linking inner table named)
                named fun component after known _ =>
                  blames_loadArray path linking name array awaits .reference (some component) after known
  next ordinary =>
      exact blames_loadClass path linking name (Bool.eq_false_iff.mpr ordinary) awaits table named
termination_by (path.unvisited linking, 1, name.length)

theorem blames_loadArray (path : ClassPath) (linking : List String) (name : String)
    (array : ArrayName.isArrayName name = true) (awaits : Awaits path linking name) (kind : Kind)
    (component : Option ClassId) (table : ClassTable) (named : Named table) :
    Blames path name (do
      let object ← loadClass path linking objectName
      let cloneable ← loadClass path linking cloneableName
      let serializable ← loadClass path linking serializableName
      registerArray name kind component object [cloneable, serializable]) table := by
  have ancestor (inner : String) (needed : ArrayName.Needs name inner)
      (ordinary : ArrayName.isArrayName inner = false) (table : ClassTable) (named : Named table) :
      Blames path name (loadClass path linking inner) table :=
    have needs : path.Needs name inner := .array array needed
    (blames_loadClass path linking inner ordinary (awaits.needs needs) table named).of_needs needs
  refine (ancestor _ .object rfl table named).bind_loads
    (loads_loadClass path linking objectName rfl table named) named fun object first named _ => ?_
  refine (ancestor _ .cloneable rfl first named).bind_loads
    (loads_loadClass path linking cloneableName rfl first named) named
      fun cloneable second named _ => ?_
  refine (ancestor _ .serializable rfl second named).bind_loads
    (loads_loadClass path linking serializableName rfl second named) named
      fun serializable third named _ => ?_
  exact Ends.of_ok rfl trivial
termination_by (path.unvisited linking, 0, 1)

theorem blames_loadSuperclass (path : ClassPath) (linking : List String) (file : ClassFile)
    (ordinary : ArrayName.isArrayName file.name = false) (loads : path.load file.name = .ok file)
    (awaits : ∀ inner, path.Needs file.name inner → Awaits path linking inner)
    (table : ClassTable) (named : Named table) :
    Blames path file.name (loadSuperclass path linking file) table := by
  rw [loadSuperclass]
  split
  next superclass declared =>
      have needs : path.Needs file.name superclass := .file ordinary loads (.inl declared)
      have above := blames_load path linking superclass (awaits _ needs) table named
      refine (above.of_needs needs).bind_loads (loads_load path linking superclass table named)
        named fun id after _ found => ?_
      rw [Blames, ends_bind, ends_get]
      split
      · next sort =>
        exact ends_bind.mpr (ends_throw.mpr ⟨file.name, .refl,
          .file ordinary (.unlinkable loads (.superclass declared ⟨found, sort⟩))⟩)
      · exact ends_pure.mpr trivial
  next missing =>
      split
      · exact ends_pure.mpr trivial
      · next other =>
        exact ends_throw.mpr ⟨file.name, .refl,
          .file ordinary (.unlinkable loads (.rootless missing (by simpa using other)))⟩
termination_by (path.unvisited linking, 2, 0)

theorem blames_loadInterfaces (path : ClassPath) (linking : List String) (file : ClassFile)
    (ordinary : ArrayName.isArrayName file.name = false) (loads : path.load file.name = .ok file)
    (awaits : ∀ inner, path.Needs file.name inner → Awaits path linking inner)
    (interfaces : List String) (declared : ∀ name ∈ interfaces, name ∈ file.interfaces)
    (table : ClassTable) (named : Named table) :
    Blames path file.name (loadInterfaces path linking file.name interfaces) table := by
  cases interfaces with
  | nil =>
      rw [loadInterfaces]
      exact ends_pure.mpr trivial
  | cons iface rest =>
      rw [loadInterfaces]
      have here := declared iface (.head _)
      have needs : path.Needs file.name iface := .file ordinary loads (.inr here)
      have above := blames_load path linking iface (awaits _ needs) table named
      refine (above.of_needs needs).bind_loads (loads_load path linking iface table named) named
        fun id middle known found => ?_
      rw [Blames, ends_bind, ends_get]
      split
      · next sort =>
        have sort : (middle.get id).isInterface = false := by simpa using sort
        exact ends_bind.mpr (ends_throw.mpr ⟨file.name, .refl,
          .file ordinary (.unlinkable loads (.interface here ⟨found, sort⟩))⟩)
      · rw [ends_bind]
        have others := blames_loadInterfaces path linking file ordinary loads awaits rest
          (fun name member => declared name (.tail _ member)) middle known
        exact Ends.mono others (fun _ _ _ => ends_pure.mpr trivial) fun _ _ failed => failed
termination_by (path.unvisited linking, 3, interfaces.length)

theorem blames_define (path : ClassPath) (linking : List String) (file : ClassFile)
    (ordinary : ArrayName.isArrayName file.name = false) (loads : path.load file.name = .ok file)
    (awaits : ∀ inner, path.Needs file.name inner → Awaits path linking inner)
    (table : ClassTable) (named : Named table) :
    Blames path file.name (define path linking file) table := by
  rw [define, Blames, ends_bind]
  have nearest := blames_loadSuperclass path linking file ordinary loads awaits table named
  refine ((ends_loadSuperclass path linking file table named).and nearest).mono ?_
    fun _ _ failed => failed.2
  rintro superclass first ⟨⟨begun, -⟩, -⟩
  have known := Extends.named begun named
  rw [ends_bind]
  have declared := blames_loadInterfaces path linking file ordinary loads awaits file.interfaces
    (fun _ member => member) first known
  refine Ends.mono declared (fun interfaces second _ => ?_) fun _ _ failed => failed
  rw [register, ends_bind, ends_get]
  cases linked : Class.link second.nextId file (superclass.map second.get) interfaces with
  | error error =>
      exact ends_bind.mpr (ends_throw.mpr ⟨file.name, .refl,
        .file ordinary (.unlinkable loads (.members linked))⟩)
  | ok cls => exact Ends.of_ok rfl trivial
termination_by (path.unvisited linking, 4, 0)

end

end Linking

namespace Registry

variable {registry : Registry} {name : String} {error : LoadError}

/-- A class does not load because one that it needs is missing, because its name is a misspelt
one of an array, or because of a class file. -/
theorem refuses_of_load (named : Linking.Named registry.toClassTable)
    (failed : (registry.load name).1 = .error error) :
    registry.path.Refuses (registry.load name).2.toClassTable name error := by
  have blames := Linking.blames_load registry.path [] name nofun registry.toClassTable named
  simp only [load, link] at failed ⊢
  split at failed
  next => cases failed
  next raised after ran =>
      cases failed
      obtain ⟨other, reached, fault⟩ := ends_of_error ran blames
      exact fault.refuses reached

/-- Linking that can only fail, without having changed the table, refuses the name. -/
theorem load_of_ends
    (ends : Ends (Linking.load registry.path [] name) registry.toClassTable (fun _ _ => False)
      fun raised after => raised = error ∧ after = registry.toClassTable) :
    registry.load name = (.error error, registry) := by
  cases ran : Linking.load registry.path [] name registry.toClassTable with
  | ok id after => exact (ends_of_ok ran ends).elim
  | error raised after =>
      obtain ⟨rfl, rfl⟩ := ends_of_error ran ends
      rw [load, link, EStateM.run, ran]

/-- A misspelt name of an array is refused if nothing is known by it. -/
theorem load_of_misspelt (array : ArrayName.isArrayName name = true)
    (refused : ArrayName.component name = .error error) (unknown : registry.find? name = none) :
    registry.load name = (.error error, registry) := by
  apply load_of_ends
  rw [Linking.load, dif_pos array, ends_bind, ends_get]
  split
  next known => cases unknown.symm.trans known
  next =>
    split
    next raised same =>
      cases refused.symm.trans same
      exact ends_throw.mpr ⟨rfl, rfl⟩
    next same => cases refused.symm.trans same
    next same => cases refused.symm.trans same

/-- A name without a class and without a file is not found. -/
theorem load_of_absent (ordinary : ArrayName.isArrayName name = false)
    (absent : registry.path.find? name = none) (unknown : registry.find? name = none) :
    registry.load name = (.error (.notFound name), registry) := by
  apply load_of_ends
  rw [Linking.load, dif_neg (Bool.eq_false_iff.mp ordinary), Linking.loadClass, ends_bind, ends_get]
  split
  next known => cases unknown.symm.trans known
  next =>
    split
    next member => cases member
    next =>
      split
      next => exact ends_throw.mpr ⟨rfl, rfl⟩
      next found => cases absent.symm.trans found

end Registry

end Jvm
