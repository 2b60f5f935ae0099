import Jvm.Machine.Stage

/-!
# Calls from the host

A host calls methods, reads static fields and makes objects. A call runs to its
end, within a bound on its slices and on the nesting of calls that natives make;
what it leaves behind is an idle execution.
-/

namespace Jvm

/-- The bounds of calls from the host. -/
structure Bounds where
  /-- Slices of one call. -/
  slices : Nat := 100000000
  /-- Calls within calls that natives make. -/
  nesting : Nat := 64
  deriving DecidableEq, Inhabited

/-- The calls that natives may make within a call of the host. -/
def Bounds.reentry (bounds : Bounds) : Reentry := Reentry.ofDepth bounds.slices bounds.nesting

namespace Host

/-! ### Calls -/

/-- Calls a method on the running execution and runs it to its end. -/
def invoke (bounds : Bounds) (method : MethodId) (arguments : List Value) : Host Value := do
  let complete := runToCompletion bounds.reentry bounds.slices
  match ← enterMethod bounds.reentry complete method arguments with
  | some value => pure value
  | none => complete

/-- Calls a static method of a class. -/
def invokeStatic (bounds : Bounds) (className name descriptor : String)
    (arguments : List Value) : Host Value := do
  invoke bounds (← findStatic className name descriptor) arguments

/-- Calls the method that the class of a receiver selects. The receiver is not
among the arguments. -/
def invokeVirtual (bounds : Bounds) (receiver : Ref) (name descriptor : String)
    (arguments : List Value) : Host Value := do
  match (← get).heap.class? receiver with
  | none => fault (.notLiveObject receiver)
  | some cls => do
    let resolved ← findMethod cls name descriptor
    let machine ← get
    if (machine.method resolved).isStatic then fault (.isStatic (machine.methodLabel resolved))
    else do
      let (target, registry) := machine.registry.resolveVirtual cls resolved
      set { machine with registry }
      invoke bounds (target.getD resolved) (.ref (some receiver) :: arguments)

/-- Creates a parked execution that will run a static method. -/
def prepareExecution (bounds : Bounds) (className name descriptor : String)
    (arguments : List Value) : Host ExecId := do
  let method ← findStatic className name descriptor
  bounds.reentry.prepare method arguments

/-- Runs a slice of a parked execution. -/
def slice (bounds : Bounds) (id : ExecId) : Host SliceOutcome := runParkedSlice bounds.reentry id

/-- Runs a slice of a parked execution, and up to `more` further ones while it
only yields or sleeps. How many there were, and how the last one ended. -/
def drive (bounds : Bounds) (id : ExecId) : Nat → Host (Nat × SliceOutcome)
  | 0 => do pure (1, ← slice bounds id)
  | more + 1 => do
    match ← slice bounds id with
    | .yielded | .sleeping _ => do
      let (count, outcome) ← drive bounds id more
      pure (count + 1, outcome)
    | outcome => pure (1, outcome)

/-! ### Objects -/

/-- A new string. It is kept until the next instruction runs. -/
def newString (text : String) : Host Ref := ofGuest (Guest.newString text)

/-- A new array of `int`s. -/
def newIntArray (values : Array Int32) : Host Ref := do
  let cls ← load "[I"
  ofGuest do
    let array ← Guest.newZeroArray cls values.size
    modify fun machine => machine.modifyHeap fun heap => heap.modifyArray array fun data =>
      (data.copyFrom? 0 (.ints values) 0 values.size).getD data
    pure array

/-- Stores new strings in an array of strings, from an index on. -/
def storeStrings (array : Ref) : Nat → List String → Guest Unit
  | _, [] => pure ()
  | index, text :: rest => do
    let string ← Guest.newString text
    modify fun machine => machine.modifyHeap fun heap => heap.modifyArray array fun data =>
      data.set index (.ref (some string))
    storeStrings array (index + 1) rest

/-- A new array of strings. -/
def newStringArray (texts : List String) : Host Ref := do
  let cls ← load "[Ljava/lang/String;"
  ofGuest do
    let array ← Guest.newZeroArray cls texts.length
    storeStrings array 0 texts
    pure array

/-! ### Classes -/

/-- Links a class from the bytes of its file. -/
def defineClass (bytes : Array UInt8) : Host ClassId :=
  linking fun registry => registry.defineClass bytes

/-- The static field of this name that is nearest to a class. -/
def staticField? (machine : Machine) (id : ClassId) (name : String) :
    Option (ClassId × Field) :=
  (machine.registry.superChain id).findSome? fun owner =>
    match (machine.cls owner).fields.find? fun field => field.name == name with
    | some field => if field.isStatic then some (owner, field) else none
    | none => none

/-- A static field of a class, or of a class above it. The class is initialized
first. -/
def getStatic (bounds : Bounds) (className name : String) : Host Value := do
  let id ← load className
  initializeClass (runToCompletion bounds.reentry bounds.slices) id
  let machine ← get
  match staticField? machine id name with
  | none => fault (.noStaticField name className)
  | some (owner, field) =>
    match (machine.cls owner).statics with
    | none => fault (.staticsNotPrepared className)
    | some statics => pure (statics.read field.slot.toNat field.kind)

/-- Binds a native to a method by name, also if its class is loaded. Whether it
replaces another one. -/
def registerNative (className name descriptor : String) (native : Native) : Host Bool := do
  let machine ← get
  let replaced := (machine.natives.find? className name descriptor).isSome
  let bound := (machine.registry.find? className).bind fun id =>
    (machine.cls id).declaredMethod? name descriptor
  if let some id := bound then
    modify fun machine => machine.modifyTable fun table =>
      table.modifyMethod id fun method => { method with native := some native }
  modify fun machine =>
    { machine with natives := machine.natives.insert className name descriptor native }
  pure replaced

/-! ### Programs -/

/-- Descriptor of the method that a program starts with. -/
def mainDescriptor : String := "([Ljava/lang/String;)V"

/-- Runs the main method of a class, then the threads that it started. The
failure of the method goes before that of a thread. -/
def run (bounds : Bounds) (className : String) (arguments : List String) : Host Unit := do
  let method ← findStatic className "main" mainDescriptor
  let array ← newStringArray arguments
  modify fun machine => machine.modifyHeap fun heap => heap.pin array
  let result ← catching (invoke bounds method [.ref (some array)])
  modify fun machine => machine.modifyHeap fun heap => heap.unpin array
  let joined ← catching (joinThreads bounds.reentry bounds.slices)
  match result with
  | .error error => throw error
  | .ok _ =>
    match joined with
    | .error error => throw error
    | .ok _ => pure ()

/-! ### Driving executions side by side -/

/-- Gives each of some threads a slice; gives back those that go on. -/
def driveThreads (bounds : Bounds) : List ExecId → Host (List ExecId)
  | [] => pure []
  | id :: rest => do
    let goesOn ←
      match ← catching (slice bounds id) with
      | .ok (.finished _) => pure false
      | .ok .suspended => throw .exhausted
      | .ok _ => pure true
      | .error error => do
        modify fun machine => machine.reportDeath id error
        pure false
    let others ← driveThreads bounds rest
    pure (if goesOn then id :: others else others)

/-- Takes over the threads that guest code started. -/
def takeThreads : Host (List ExecId) := modifyGet fun machine =>
  (machine.guestThreads, { machine with guestThreads := [] })

/-- The instant at which the first of some executions wakes, if all sleep. -/
def allAsleep (machine : Machine) (ids : List ExecId) : Option Instant :=
  (ids.mapM fun id => (machine.execution? id).bind fun exec =>
    exec.wakeAt.filter (machine.now < ·)).bind List.min?

/-- Lets time pass if nothing else can. -/
def waitForWake (ids : List ExecId) : Host Unit := modify fun machine =>
  match allAsleep machine ids with
  | some wakeAt => machine.sleepUntil wakeAt
  | none => machine

/-- Runs threads to their ends, with those that they start. -/
def finishThreads (bounds : Bounds) : Nat → List ExecId → Host Unit
  | 0, _ => throw .exhausted
  | fuel + 1, threads => do
    if !threads.isEmpty then do
      let left ← driveThreads bounds threads
      let threads := left ++ (← takeThreads)
      waitForWake threads
      finishThreads bounds fuel threads

/-- Runs a parked execution to its end, side by side with the threads that it
starts. How it ended, and the threads that are left. -/
def driveExecution (bounds : Bounds) (id : ExecId) :
    Nat → List ExecId → Host (Except Error Value × List ExecId)
  | 0, _ => throw .exhausted
  | fuel + 1, threads => do
    let outcome ← catching (slice bounds id)
    let threads := threads ++ (← takeThreads)
    match outcome with
    | .error error => pure (.error error, threads)
    | .ok (.finished value) => pure (.ok value, threads)
    | .ok .suspended => throw .exhausted
    | .ok _ => do
      let left ← driveThreads bounds threads
      let threads := left ++ (← takeThreads)
      waitForWake (id :: threads)
      driveExecution bounds id fuel threads

/-- Calls a static method on an execution of its own, side by side with the
threads that it starts, and waits for all of them. -/
def invokeShared (bounds : Bounds) (className name descriptor : String)
    (arguments : List Value) : Host Value := do
  let id ← prepareExecution bounds className name descriptor arguments
  let (ended, threads) ← driveExecution bounds id bounds.slices []
  finishThreads bounds bounds.slices threads
  match ended with
  | .ok value => pure value
  | .error error => throw error

end Host

end Jvm
