import Jvm.Machine.Unwind

/-!
# Parked executions

One execution runs; the others are parked under their ids. Running something
else parks the current execution and brings it back afterwards. What natives
need of the machinery around them is collected in a record, because that
machinery runs natives in turn.
-/

namespace Jvm

namespace Machine

/-- Parks an execution under its id. -/
def park (machine : Machine) (exec : Execution) : Machine :=
  { machine with parked := exec :: machine.parked.filter (·.id ≠ exec.id) }

/-- Takes a parked execution out. -/
def unpark (machine : Machine) (id : ExecId) : Option (Execution × Machine) :=
  (machine.parked.find? (·.id == id)).map fun exec =>
    (exec, { machine with parked := machine.parked.filter (·.id ≠ id) })

/-- Makes an execution current and parks the one that was. -/
def switchTo (machine : Machine) (exec : Execution) : Machine :=
  { machine.park machine.exec with exec }

/-- Makes the execution parked under an id current again, or a new one if there
is none, and gives the one it replaces. -/
def switchBack (machine : Machine) (id : ExecId) : Execution × Machine :=
  match machine.unpark id with
  | some (previous, machine) => (machine.exec, { machine with exec := previous })
  | none =>
    (machine.exec, { machine with exec := Execution.idle id machine.config.stackSlots })

/-- Ids of the parked executions, ascending. -/
def parkedIds (machine : Machine) : List ExecId :=
  (machine.parked.map (·.id)).mergeSort fun left right => left ≤ right

/-- Number of frames of an execution; zero if there is none of this id. -/
def depth (machine : Machine) (id : ExecId) : Nat :=
  (machine.execution? id).elim 0 Execution.depth

/-- The result of an execution that ended before its first slice. -/
def takeCompleted (machine : Machine) (id : ExecId) : Option (Value × Machine) :=
  (machine.completed.find? fun (exec, _) => exec == id).map fun (_, value) =>
    (value, { machine with completed := machine.completed.filter fun (exec, _) => exec ≠ id })

end Machine

/-- The calls that a native may make while it runs. -/
structure Reentry where
  /-- Stages a call on the running execution, which has to be idle; the result,
  if the call needs no further run. -/
  enter : MethodId → List Value → Host (Option Value)
  /-- Runs the running execution until its bottom frame returns. -/
  complete : Host Value

namespace Reentry

/-- A call to its end. -/
def call (reentry : Reentry) (method : MethodId) (arguments : List Value) : Host Value := do
  match ← reentry.enter method arguments with
  | some value => pure value
  | none => reentry.complete

/-- Creates a parked execution that will run a method. A native method ends right
away, and its result is kept for the first slice. -/
def prepare (reentry : Reentry) (method : MethodId) (arguments : List Value) : Host ExecId :=
  fun machine =>
    let id := machine.nextExec
    let current := machine.exec.id
    let machine := { machine with nextExec := id + 1 }
    let machine := machine.switchTo (Execution.idle id machine.config.stackSlots)
    match reentry.enter method arguments machine with
    | .error error machine => .error error (machine.switchBack current).2
    | .ok entered machine =>
      let (exec, machine) := machine.switchBack current
      match entered with
      | some value => .ok id { machine with completed := (id, value) :: machine.completed }
      | none => .ok id (machine.park exec)

end Reentry

end Jvm

/-!
## Looking up what the host names

The host names classes and members by text. What it asks for has to exist and to
be of the right sort before anything runs.
-/

namespace Jvm.Host

/-- A class by name, loaded if it is not there. -/
def load (name : String) : Host ClassId := linking fun registry => registry.load name

/-- The failure to find a method in a class or above it. -/
def methodNotFound {α : Type} (owner : ClassId) (name descriptor : String) : Host α := do
  throw (.methodNotFound ((← get).displayName owner) name descriptor)

/-- A method found from a class. -/
def findMethod (owner : ClassId) (name descriptor : String) : Host MethodId := do
  match (← get).registry.lookupMethod owner name descriptor with
  | some method => pure method
  | none => methodNotFound owner name descriptor

/-- A static method found from a class that is loaded first. -/
def findStatic (className name descriptor : String) : Host MethodId := do
  let method ← findMethod (← load className) name descriptor
  let machine ← get
  if (machine.method method).isStatic then pure method
  else fault (.isNotStatic (machine.methodLabel method))

end Jvm.Host
