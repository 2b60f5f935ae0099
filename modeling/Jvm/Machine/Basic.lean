import Jvm.Monitor
import Jvm.Slots.Frame
import Jvm.Exception
import Jvm.Heap.Basic
import Jvm.Machine.Debugger
import Jvm.Native.Table
import Jvm.Registry.Load

/-!
# Machines

A machine holds everything a program can reach: classes, heap, executions and
consoles. Steps on behalf of guest code may end by throwing an object or with an
error that ends the execution; steps on behalf of the host end with an error
only.
-/

namespace Jvm

/-!
## Configuration

What a machine is started with. Every setter returns the changed configuration,
so that they chain from the default one.
-/

/-- What the clocks of the host show after so many instructions: the nanoseconds that have
gone by, time slept apart, and the milliseconds of the calendar, given the nanoseconds that
were slept. -/
structure Clock where
  elapsed : (executed : Nat) → Nat
  calendar : (executed slept : Nat) → Nat

/-- A clock for hosts that have none: each instruction takes fifty nanoseconds. -/
def Clock.ticking : Clock where
  elapsed executed := executed * 50
  calendar executed slept := 1700000000000 + (executed * 50 + slept) / 1000000

instance : Inhabited Clock := ⟨.ticking⟩

/-- What a machine takes from its surroundings: whatever clocks there are, and a generator of
identity hashes with its seed. -/
structure Surroundings where
  hashSeed : UInt64 := 0x9E3779B97F4A7C15
  hashes : HashSource := default
  clock : Clock := default
  deriving Inhabited

/-- The settings of a machine. -/
structure Config where
  classPath : List String := []
  /-- Slots of each execution stack. -/
  stackSlots : Nat := 64 * 1024
  /-- Bytes that objects may take. -/
  heapLimit : Nat := 64 * 1024 * 1024
  /-- Bytes allocated between two collections. -/
  gcThreshold : Nat := 1024 * 1024
  /-- Collect on every n-th allocation. -/
  gcStress : Option UInt32 := none
  /-- Instructions an execution runs before it yields. -/
  sliceBudget : Nat := 10000
  surroundings : Surroundings := {}
  deriving Inhabited

namespace Config

/-- Replaces the class path by the non-empty entries of a list of paths. -/
def setClassPath (config : Config) (paths : String) : Config :=
  { config with classPath := (paths.splitOn ":").filter (· ≠ "") }

/-- Adds one entry to the class path. -/
def addClassPath (config : Config) (entry : String) : Config :=
  { config with classPath := config.classPath ++ [entry] }

def setStackSlots (config : Config) (slots : Nat) : Config := { config with stackSlots := slots }

def setHeapLimit (config : Config) (bytes : Nat) : Config := { config with heapLimit := bytes }

def setGcThreshold (config : Config) (bytes : Nat) : Config :=
  { config with gcThreshold := bytes }

def setGcStress (config : Config) (every : Option UInt32) : Config :=
  { config with gcStress := every }

/-- A slice runs one instruction at least. -/
def setSliceBudget (config : Config) (instructions : Nat) : Config :=
  { config with sliceBudget := max instructions 1 }

def setHashSeed (config : Config) (seed : UInt64) : Config :=
  { config with surroundings := { config.surroundings with hashSeed := seed } }

end Config

/-!
## Executions

An execution is one logical thread: the registers of the interpreter and the
slot stack of its frames. It is idle when it has no current method.
-/

/-- A point in time, in nanoseconds of the machine's clock. -/
abbrev Instant := Nat

/-- The registers and the stack of one logical thread. -/
structure Execution where
  id : ExecId
  stack : Stack
  method : Option MethodId := none
  pc : UInt32 := 0
  startSp : Nat := 0
  /-- An exception kept while the debugger holds the execution. -/
  pendingException : Option Ref := none
  /-- An instruction to execute without stopping before it again. -/
  skipBreakpoint : Option (MethodId × UInt32) := none
  /-- When a sleeping execution goes on. -/
  wakeAt : Option Instant := none
  /-- The thread object that the execution runs as, once known. -/
  threadObject : Option Ref := none
  deriving DecidableEq, Inhabited

namespace Execution

/-- The execution that calls from the host run on. -/
def mainId : ExecId := 1

/-- An idle execution. -/
def idle (id : ExecId) (stackSlots : Nat) : Execution := { id, stack := Stack.ofLimit stackSlots }

def isIdle (exec : Execution) : Bool := exec.method.isNone

/-- The live frames, innermost first. -/
def frames (exec : Execution) : List Frame :=
  Frame.all exec.stack exec.method exec.pc exec.startSp

def depth (exec : Execution) : Nat := exec.frames.length

/-- A frame by its distance from the innermost. -/
def frame? (exec : Execution) (index : Nat) : Option Frame := exec.frames[index]?

/-- References that the execution holds: those in tagged slots below the top, an
exception kept back and its thread object. -/
def roots (exec : Execution) : List Ref :=
  exec.stack.refs 0 exec.stack.sp ++ exec.pendingException.toList ++ exec.threadObject.toList

/-- Drops every frame and operand. The id and the thread object stay. -/
def reset (exec : Execution) : Execution :=
  { exec with
    stack := exec.stack.reset, method := none, pc := 0, startSp := 0
    pendingException := none, skipBreakpoint := none, wakeAt := none }

/-- Slot of a local of the current frame. -/
def localSlot (exec : Execution) (index : Nat) : Nat := exec.startSp + 1 + index

end Execution

/-! ## Everything a program can reach -/

/-- Classes and field slots that the machine itself uses. -/
structure WellKnown where
  object : ClassId
  cls : ClassId
  string : ClassId
  byteArray : ClassId
  cloneable : ClassId
  throwable : ClassId
  thread : ClassId
  stringValue : Nat
  stringCoder : Nat
  stringHash : Nat
  classNumber : Nat
  throwableMessage : Nat
  streamDescriptor : Nat
  threadExecution : Nat
  deriving DecidableEq, Inhabited

/-- The state of a virtual machine. -/
structure Machine where
  config : Config
  heap : Heap
  /-- The canonical string objects by their text. -/
  interned : Std.HashMap String Ref := {}
  registry : Registry
  natives : NativeTable := NativeTable.builtins
  known : WellKnown
  /-- The execution that the interpreter is running. -/
  exec : Execution
  /-- Executions that wait for their next slice. -/
  parked : List Execution := []
  /-- Results of executions that ended before their first slice. -/
  completed : List (ExecId × Value) := []
  /-- Executions that guest code started and nobody has taken over. -/
  guestThreads : List ExecId := []
  /-- Whether the running slice is to end after this instruction. -/
  yieldRequested : Bool := false
  clock : Clock := default
  /-- Instructions run so far, by all executions. -/
  executed : Nat := 0
  /-- Nanoseconds slept so far. -/
  slept : Nat := 0
  nextExec : ExecId := Execution.mainId + 1
  /-- The error object kept for a full heap. -/
  outOfMemory : Option Ref := none
  debugger : Debugger := {}
  debuggerAttached : Bool := false
  /-- The bytes under breakpoints. -/
  breakpoints : List ((MethodId × UInt32) × UInt8) := []
  /-- What was written to the output and to the error console. -/
  output : String := ""
  errorOutput : String := ""
  terminated : Bool := false
  deriving Inhabited

/-- How a step of guest code ends abruptly. -/
inductive Throw where
  /-- An object is thrown; a handler may catch it. -/
  | exception (ref : Ref)
  /-- The execution cannot go on. -/
  | fatal (error : Error)
  deriving DecidableEq

/-- Steps on behalf of guest code. What was done before a throw stays done. -/
abbrev Guest := EStateM Throw Machine

/-- Steps on behalf of the host. -/
abbrev Host := EStateM Error Machine

namespace Machine

/-- What the clock shows: how far it has gone by itself, and the time slept. -/
def now (machine : Machine) : Instant := machine.clock.elapsed machine.executed + machine.slept

/-- Changes the running execution. -/
@[inline] def modifyExec (machine : Machine) (change : Execution → Execution) : Machine :=
  { machine with exec := change machine.exec }

/-- Changes the stack of the running execution. -/
@[inline] def modifyStack (machine : Machine) (change : Stack → Stack) : Machine :=
  machine.modifyExec fun exec => { exec with stack := change exec.stack }

/-- Changes the heap. -/
@[inline] def modifyHeap (machine : Machine) (change : Heap → Heap) : Machine :=
  { machine with heap := change machine.heap }

/-- Changes the linked classes. -/
@[inline] def modifyTable (machine : Machine) (change : ClassTable → ClassTable) : Machine :=
  { machine with
    registry := { machine.registry with
      toClassTable := change machine.registry.toClassTable } }

/-- Changes one linked class. -/
@[inline] def modifyClass (machine : Machine) (id : ClassId) (change : Class → Class) : Machine :=
  machine.modifyTable fun table => table.modify id change

/-- A linked class. -/
def cls (machine : Machine) (id : ClassId) : Class := machine.registry.get id

/-- A linked method. -/
def method (machine : Machine) (id : MethodId) : Method := machine.registry.method id

/-- A linked method in messages. -/
def methodLabel (machine : Machine) (id : MethodId) : String := machine.registry.methodLabel id

/-- Name with dots of a linked class. -/
def displayName (machine : Machine) (id : ClassId) : String := machine.registry.displayName id

/-- Name with dots of the class of a live object. -/
def classNameOf (machine : Machine) (ref : Ref) : Option String :=
  ((machine.heap.class? ref).bind machine.registry.class?).map (·.displayName)

/-- An execution by its id, the running one or a parked one. -/
def execution? (machine : Machine) (id : ExecId) : Option Execution :=
  if machine.exec.id = id then some machine.exec
  else machine.parked.find? fun exec => exec.id == id

/-- Appends to the output or to the error console. -/
def write (machine : Machine) (descriptor : Int32) (text : String) : Machine :=
  if descriptor = 2 then { machine with errorOutput := machine.errorOutput ++ text }
  else { machine with output := machine.output ++ text }

/-- Asks every execution to end. -/
def terminate (machine : Machine) : Machine := { machine with terminated := true }

end Machine

namespace Guest

/-- Ends the execution with an error. -/
def fatal {α : Type} (error : Error) : Guest α := throw (.fatal error)

/-- Ends the execution: the machine is in no state to go on. -/
def fault {α : Type} (fault : StateFault) : Guest α := fatal (.invalidState fault)

/-- A step of loading; its failure ends the execution. -/
def ofLoad {α : Type} : Except LoadError α → Guest α
  | .ok value => pure value
  | .error error => fatal (.load error)

/-- A value that has to be there. -/
def require {α : Type} (value : Option α) (missing : StateFault) : Guest α :=
  match value with
  | some value => pure value
  | none => fault missing

/-- A step on behalf of the host; its failure ends the execution. -/
@[inline] def ofHost {α : Type} (step : Host α) : Guest α := fun machine =>
  match step machine with
  | .ok value machine => .ok value machine
  | .error error machine => .error (.fatal error) machine

/-- Changes the stack of the running execution. -/
@[inline] def onStack (change : Stack → Stack) : Guest Unit :=
  modify fun machine => machine.modifyStack change

/-- Takes something off the stack of the running execution. -/
@[inline] def fromStack {α : Type} (take : Stack → α × Stack) : Guest α := fun machine =>
  let stack := machine.exec.stack
  let machine := machine.modifyStack fun _ => default
  let (value, stack) := take stack
  .ok value (machine.modifyStack fun _ => stack)

/-- Extends the linked classes. -/
@[inline] def linking {α : Type} (steps : Registry → α × Registry) : Guest α := fun machine =>
  let registry := machine.registry
  let (value, registry) := steps registry
  .ok value { machine with registry }

end Guest

namespace Host

/-- Fails: the request does not fit the state of the machine. -/
def fault {α : Type} (fault : StateFault) : Host α := throw (.invalidState fault)

/-- Runs a guest step and gives how it ended. -/
@[inline] def attempt {α : Type} (step : Guest α) : Host (Except Throw α) := fun machine =>
  match step machine with
  | .ok value machine => .ok (.ok value) machine
  | .error thrown machine => .ok (.error thrown) machine

/-- Extends the linked classes. -/
def linking {α : Type} (steps : Registry → Except LoadError α × Registry) : Host α :=
  fun machine =>
    match steps machine.registry with
    | (.ok value, registry) => .ok value { machine with registry }
    | (.error error, registry) => .error (.load error) { machine with registry }

end Host

end Jvm
