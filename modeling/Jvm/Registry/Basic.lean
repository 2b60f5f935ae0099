import Std.Data.HashMap
import Jvm.Class

/-!
# Class tables

The linked classes of a machine, by id and by name, and the relations between
them that their declarations state: the superclass chain and the interfaces
reached from it. A superclass is always linked before its subclasses, so its id
is smaller; the chain follows superclasses as long as ids descend.
-/

namespace Jvm

/-- Linked classes by id and by name. -/
structure ClassTable where
  classes : Array Class := #[]
  byName : Std.HashMap String ClassId := {}

namespace ClassTable

instance : Inhabited ClassTable := ⟨{}⟩

/-- Number of classes. -/
def size (table : ClassTable) : Nat := table.classes.size

/-- The class of an id, if there is one. -/
def class? (table : ClassTable) (id : ClassId) : Option Class := table.classes[id.index]?

/-- The class of an id that the table handed out. -/
def get (table : ClassTable) (id : ClassId) : Class := table.classes.getD id.index default

/-- The method of an id that the table handed out. -/
def method (table : ClassTable) (id : MethodId) : Method :=
  (table.get id.owner).methods.getD id.index.toNat default

/-- The class registered last under a name. -/
def find? (table : ClassTable) (name : String) : Option ClassId := table.byName[name]?

/-- Changes one class. -/
@[inline] def modify (table : ClassTable) (id : ClassId) (change : Class → Class) : ClassTable :=
  { table with classes := table.classes.modify id.index change }

/-- Changes one method. -/
@[inline] def modifyMethod (table : ClassTable) (id : MethodId) (change : Method → Method) :
    ClassTable :=
  table.modify id.owner fun cls => { cls with methods := cls.methods.modify id.index.toNat change }

/-- The id that the next class gets. -/
def nextId (table : ClassTable) : ClassId := ⟨table.size⟩

/-- Adds a class under its name. -/
def register (table : ClassTable) (cls : Class) : ClassTable :=
  { classes := table.classes.push cls, byName := table.byName.insert cls.name table.nextId }

/-- Name with dots of a class. -/
def displayName (table : ClassTable) (id : ClassId) : String := (table.get id).displayName

/-- A method in messages: class, name and descriptor. -/
def methodLabel (table : ClassTable) (id : MethodId) : String :=
  let method := table.method id
  (table.get id.owner).name ++ "." ++ method.name ++ method.descriptor

/-- A place in a stack trace. -/
def describeFrame (table : ClassTable) (id : MethodId) (pc : UInt32) : String :=
  let cls := table.get id.owner
  let method := table.method id
  let location :=
    match cls.sourceFile, method.lineOf pc with
    | some file, some line => s!"{file}:{line}"
    | some file, none => file
    | none, _ => if method.isNative then "Native Method" else "Unknown Source"
  s!"{cls.displayName}.{method.name}({location})"

/-! ### Ancestors -/

/-- The superclass, if it was linked before the class. -/
def superclass? (table : ClassTable) (id : ClassId) : Option ClassId :=
  (table.get id).superclass.filter (·.index < id.index)

theorem index_lt_of_superclass? {table : ClassTable} {id above : ClassId}
    (found : table.superclass? id = some above) : above.index < id.index := by
  simp only [superclass?, Option.filter_eq_some_iff] at found
  exact of_decide_eq_true found.2

/-- A class and its superclasses, nearest first. -/
def superChain (table : ClassTable) (id : ClassId) : List ClassId :=
  match _found : table.superclass? id with
  | none => [id]
  | some above => id :: table.superChain above
termination_by id.index
decreasing_by exact index_lt_of_superclass? _found

/-- Adds the interfaces of a queue to those seen, with everything they extend,
first come first. `fuel` bounds how many are still to be seen. -/
def gatherInterfaces (table : ClassTable) : Nat → List ClassId → List ClassId → List ClassId
  | _, [], seen => seen
  | fuel, id :: queue, seen =>
    if id ∈ seen then table.gatherInterfaces fuel queue seen
    else
      match fuel with
      | 0 => seen
      | fuel + 1 =>
        table.gatherInterfaces fuel (queue ++ (table.get id).interfaces) (seen ++ [id])
termination_by fuel queue => (fuel, queue.length)

/-- Every interface a class implements, directly or inherited, breadth first. -/
def allInterfaces (table : ClassTable) (id : ClassId) : List ClassId :=
  table.gatherInterfaces table.size
    ((table.superChain id).flatMap fun above => (table.get above).interfaces) []

end ClassTable

end Jvm
