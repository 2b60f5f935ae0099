import Jvm.Registry.ArrayName
import Jvm.Registry.Layout
import Jvm.Registry.Lookup

/-!
# Loading classes

Loading a class finds its file, loads its ancestors and registers the class
behind them. Loading an array class loads its component and makes the class up.
The names being linked are an argument: a name that is met again while it is
being linked is a cycle, so the nesting is bounded by the class path and by the
length of array names, and loading always ends.
-/

namespace Jvm

/-- Steps that extend a class table. What was registered before a failure
stays. -/
abbrev Linking := EStateM LoadError ClassTable

namespace Linking

/-- A pure step. -/
def ofExcept {α : Type} : Except LoadError α → Linking α
  | .ok value => pure value
  | .error error => throw error

/-- Refuses what is not well-formed. -/
def reject {α : Type} (fault : FormatFault) : Linking α := throw (.invalidFormat fault)

/-- Links a class file whose ancestors are linked and registers the class. -/
def register (file : ClassFile) (superclass : Option ClassId) (interfaces : List ClassId) :
    Linking ClassId := do
  let table ← get
  let cls ← ofExcept (Class.link table.nextId file (superclass.map table.get) interfaces)
  set (table.register cls)
  pure cls.id

/-- Makes up an array class and registers it. -/
def registerArray (name : String) (element : Kind) (component : Option ClassId)
    (superclass : ClassId) (interfaces : List ClassId) : Linking ClassId := do
  let table ← get
  let cls : Class :=
    { id := table.nextId, name
      flags := Access.isPublic ||| Access.isFinal ||| Access.isAbstract
      superclass := some superclass, interfaces, initState := .initialized
      array := some { dimensions := ArrayName.dimensions name, element, component } }
  set (table.register cls)
  pure cls.id

mutual

/-- Loads a class that is not an array class. -/
def loadClass (path : ClassPath) (linking : List String) (name : String) : Linking ClassId := do
  match (← get).find? name with
  | some id => pure id
  | none =>
    if name ∈ linking then throw (.circularity name)
    else
      match _found : path.find? name with
      | none => throw (.notFound name)
      | some bytes => do
        let file ← ofExcept (ClassPath.read name bytes)
        define path (name :: linking) file
termination_by (path.unvisited linking, 0, 0)
decreasing_by
  apply Prod.Lex.left
  exact ClassPath.unvisited_cons_lt (ClassPath.mem_names_of_find? _found) (by assumption)

/-- Loads a class or an array class. -/
def load (path : ClassPath) (linking : List String) (name : String) : Linking ClassId := do
  if array : ArrayName.isArrayName name = true then
    match (← get).find? name with
    | some id => pure id
    | none =>
      match found : ArrayName.component name with
      | .error error => throw error
      | .ok (.primitive kind) => do
        let object ← loadClass path linking ClassTable.objectName
        let cloneable ← loadClass path linking ClassTable.cloneableName
        let serializable ← loadClass path linking ClassTable.serializableName
        registerArray name kind none object [cloneable, serializable]
      | .ok (.named inner) => do
        have : inner.length < name.length := ArrayName.length_component array found
        let component ← load path linking inner
        let object ← loadClass path linking ClassTable.objectName
        let cloneable ← loadClass path linking ClassTable.cloneableName
        let serializable ← loadClass path linking ClassTable.serializableName
        registerArray name .reference (some component) object [cloneable, serializable]
  else
    loadClass path linking name
termination_by (path.unvisited linking, 1, name.length)

/-- Loads the superclass that a class file names. Only the root class has none. -/
def loadSuperclass (path : ClassPath) (linking : List String) (file : ClassFile) :
    Linking (Option ClassId) := do
  match file.superclass with
  | some superclass => do
    let id ← load path linking superclass
    if ((← get).get id).isInterface then
      throw (.verifyFailed (.interfaceAsSuperclass file.name superclass))
    pure (some id)
  | none =>
    if file.name == ClassTable.objectName then pure none
    else reject (.noSuperclass file.name)
termination_by (path.unvisited linking, 2, 0)

/-- Loads the interfaces that a class file names. -/
def loadInterfaces (path : ClassPath) (linking : List String) (name : String)
    (interfaces : List String) : Linking (List ClassId) := do
  match interfaces with
  | [] => pure []
  | iface :: rest => do
    let id ← load path linking iface
    if !((← get).get id).isInterface then
      throw (.verifyFailed (.implementsClass name iface))
    let others ← loadInterfaces path linking name rest
    pure (id :: others)
termination_by (path.unvisited linking, 3, interfaces.length)

/-- Links a class file: first its ancestors, then the class itself. -/
def define (path : ClassPath) (linking : List String) (file : ClassFile) : Linking ClassId := do
  let superclass ← loadSuperclass path linking file
  let interfaces ← loadInterfaces path linking file.name file.interfaces
  register file superclass interfaces
termination_by (path.unvisited linking, 4, 0)

end

/-- Links a class from the bytes of its file, past the class path. -/
def defineClass (path : ClassPath) (bytes : Array UInt8) : Linking ClassId := do
  let file ← ofExcept (ClassFile.parse bytes)
  match (← get).find? file.name with
  | some _ => reject (.duplicateClass file.name)
  | none => define path [file.name] file

/-- Loads the array class of a component class. -/
def arrayOf (path : ClassPath) (component : ClassId) : Linking ClassId := do
  let cls := (← get).get component
  load path [] (ArrayName.ofComponent cls.name cls.isArray)

end Linking

namespace Registry

/-- Runs linking steps on the registry's table. -/
@[inline] def link {α : Type} (registry : Registry) (steps : ClassPath → Linking α) :
    Except LoadError α × Registry :=
  match (steps registry.path).run registry.toClassTable with
  | .ok value table => (.ok value, { registry with toClassTable := table })
  | .error error table => (.error error, { registry with toClassTable := table })

/-- The class of a name, loaded if it is not there. -/
def load (registry : Registry) (name : String) : Except LoadError ClassId × Registry :=
  registry.link fun path => Linking.load path [] name

/-- Links a class from the bytes of its file. -/
def defineClass (registry : Registry) (bytes : Array UInt8) :
    Except LoadError ClassId × Registry :=
  registry.link fun path => Linking.defineClass path bytes

/-- The array class of a component class. -/
def arrayOf (registry : Registry) (component : ClassId) : Except LoadError ClassId × Registry :=
  registry.link fun path => Linking.arrayOf path component

end Registry

end Jvm
