import Jvm.ClassPath
import Jvm.Registry.Basic

/-!
# Looking up members and types

Methods are looked up along the superclass chain and then in the interfaces,
where a body is preferred to a declaration; fields in each class and its
interfaces before its superclass. A registry adds the class path and remembers
which method a call on a receiver class selects.
-/

namespace Jvm

namespace ClassTable

/-- A class's own method. -/
def declaredMethod? (table : ClassTable) (name descriptor : String) (id : ClassId) :
    Option MethodId :=
  (table.get id).declaredMethod? name descriptor

/-- Looks a method up in a class, its superclasses and then its interfaces. -/
def lookupMethod (table : ClassTable) (id : ClassId) (name descriptor : String) :
    Option MethodId :=
  match (table.superChain id).findSome? (table.declaredMethod? name descriptor) with
  | some method => some method
  | none =>
    let declared := (table.allInterfaces id).filterMap (table.declaredMethod? name descriptor)
    (declared.find? fun method => !(table.method method).isAbstract).or declared.head?

/-- A class's own field, or the first that its interfaces have. -/
def fieldOf? (table : ClassTable) (name descriptor : String) (id : ClassId) :
    Option (ClassId × Field) :=
  (id :: table.allInterfaces id).findSome? fun owner =>
    ((table.get owner).declaredField? name descriptor).map fun field => (owner, field)

/-- Looks a field up in a class, its interfaces and then its superclass. -/
def lookupField (table : ClassTable) (id : ClassId) (name descriptor : String) :
    Option (ClassId × Field) :=
  (table.superChain id).findSome? (table.fieldOf? name descriptor)

/-- Whether a class is `above` or a subclass of it. -/
def isSubclassOf (table : ClassTable) (id above : ClassId) : Bool :=
  above ∈ table.superChain id

/-- Whether a class implements an interface. -/
def implements (table : ClassTable) (id iface : ClassId) : Bool := iface ∈ table.allInterfaces id

/-- Names of the root class and of the interfaces of every array. -/
def objectName : String := "java/lang/Object"

def cloneableName : String := "java/lang/Cloneable"

def serializableName : String := "java/io/Serializable"

/-- Whether a value of class `source` may be stored in a variable of type
`target`. -/
def isAssignable (table : ClassTable) (source target : ClassId) : Bool :=
  if source = target then true
  else
    let wanted := table.get target
    if wanted.name == objectName then true
    else
      match (table.get source).array with
      | some held =>
        match wanted.array with
        | some array =>
          match held.component, array.component with
          | some part, some slot =>
            if part.index < source.index then table.isAssignable part slot else false
          | none, none => held.element == array.element
          | _, _ => false
        | none => wanted.name == cloneableName || wanted.name == serializableName
      | none =>
        if wanted.isInterface then table.implements source target
        else table.isSubclassOf source target
termination_by source.index

/-- The method that a call of `resolved` on a receiver class selects. A private
method and a constructor select themselves. -/
def select? (table : ClassTable) (receiver : ClassId) (resolved : MethodId) : Option MethodId :=
  let method := table.method resolved
  if method.isPrivate || method.isConstructor then some resolved
  else table.lookupMethod receiver method.name method.descriptor

end ClassTable

/-- A class table with where to load from and the selections made so far. -/
structure Registry extends ClassTable where
  path : ClassPath := {}
  selected : Std.HashMap (ClassId × MethodId) MethodId := {}

namespace Registry

instance : Inhabited Registry := ⟨{}⟩

/-- An empty registry that loads from a class path. -/
def ofPath (path : ClassPath) : Registry := { path }

/-- Selects the target of a virtual call, from memory if it was selected before. -/
def resolveVirtual (registry : Registry) (receiver : ClassId) (resolved : MethodId) :
    Option MethodId × Registry :=
  match registry.selected[(receiver, resolved)]? with
  | some target => (some target, registry)
  | none =>
    match registry.select? receiver resolved with
    | some target =>
      (some target,
        { registry with selected := registry.selected.insert (receiver, resolved) target })
    | none => (none, registry)

end Registry

end Jvm
