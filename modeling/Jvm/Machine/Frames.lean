import Jvm.Machine.Resolve

/-!
# Calls and locks

A call turns the arguments on top of the stack into the locals of a new frame;
a return removes the frame and hands its value to the caller. Synchronized
methods hold a lock while they run: that of their receiver, or that of their
class.
-/

namespace Jvm

/-- What a synchronized method or block locks. -/
inductive Lock where
  | object (ref : Ref)
  | cls (id : ClassId)
  deriving DecidableEq

namespace Machine

/-- The monitor of a lock; an object that is not live has none. -/
def monitor? (machine : Machine) : Lock → Option Monitor
  | .object ref => (machine.heap.get? ref).map (·.monitor)
  | .cls id => some (machine.cls id).monitor

def setMonitor (machine : Machine) (monitor : Monitor) : Lock → Machine
  | .object ref => machine.modifyHeap fun heap => heap.modify ref fun object =>
      { object with monitor }
  | .cls id => machine.modifyClass id fun cls => { cls with monitor }

/-- Takes a lock for the running execution, unless another one holds it. -/
def enterLock (machine : Machine) (lock : Lock) : Bool × Machine :=
  match machine.monitor? lock with
  | none => (true, machine)
  | some monitor =>
    match monitor.enter machine.exec.id with
    | some monitor => (true, machine.setMonitor monitor lock)
    | none => (false, machine)

/-- Releases a lock once, if the running execution holds it. -/
def exitLock (machine : Machine) (lock : Lock) : Bool × Machine :=
  match (machine.monitor? lock).bind fun monitor => monitor.exit machine.exec.id with
  | some monitor => (true, machine.setMonitor monitor lock)
  | none => (false, machine)

/-- Frees every lock that an execution holds. -/
def releaseLocks (machine : Machine) (exec : ExecId) : Machine :=
  (machine.modifyHeap fun heap => heap.releaseMonitors exec).modifyTable fun table =>
    { table with classes := table.classes.map fun cls =>
        if cls.monitor.heldBy exec then { cls with monitor := Monitor.free } else cls }

/-- The lock that a synchronized method takes, given its receiver. -/
def lockOf? (machine : Machine) (id : MethodId) (receiver : Option Ref) : Option Lock :=
  let method := machine.method id
  if !method.isSynchronized then none
  else if method.isStatic then some (.cls id.owner)
  else receiver.map .object

/-- The lock that the current frame's method took. Its receiver is the first
local. -/
def frameLock? (machine : Machine) (id : MethodId) : Option Lock :=
  machine.lockOf? id (machine.exec.stack.loadRef (machine.exec.localSlot 0))

end Machine

/-- How an instruction ends, if it does not throw. -/
inductive Step where
  | next
  /-- The bottom frame returned to the host. -/
  | returned (value : Value)
  /-- Another execution holds a lock; the instruction is to run again. -/
  | blocked
  /-- The debugger stopped before the instruction; it is to run again. -/
  | suspended
  deriving DecidableEq

/-- Makes a frame of a method whose arguments are on top of a stack: the context
goes below the arguments, which become the first locals. -/
def Stack.enterFrame (stack : Stack) (context : FrameContext) (arguments locals : Nat) : Stack :=
  let base := stack.sp - arguments
  let first := base + FrameContext.size
  let stack := context.write (stack.shiftUp base arguments FrameContext.size) base
  (stack.zero (first + arguments) (first + locals)).setSp (first + locals)

namespace Guest

/-- Pushes a frame for a method. The current method becomes its caller. -/
def pushFrame (id : MethodId) (callerPc returnPc : UInt32) : Guest Unit := do
  let machine ← get
  let method := machine.method id
  match method.code with
  | none => fault (.noCode (machine.methodLabel id))
  | some code =>
    let arguments := method.frameArgSlots.toNat
    let locals := method.frameLocals
    let sp := machine.exec.stack.sp
    if sp < arguments then fault (.stackUnderflow (machine.methodLabel id))
    else if machine.exec.stack.limit <
        sp + FrameContext.size + (locals - arguments) + code.maxStack.toNat then
      raise .stackOverflowError none
    else
      modify fun machine => machine.modifyExec fun exec =>
        let context : FrameContext := ⟨exec.method, callerPc, returnPc, exec.startSp⟩
        { exec with
          stack := exec.stack.enterFrame context arguments locals
          method := some id
          pc := 0
          startSp := sp - arguments + FrameContext.size - 1 }

end Guest

/-! ### Class initialization, seen from its end -/

namespace ClassTable

/-- Whether a class waits for its superclass: it is being initialized and has no
initializer of its own. -/
def waitsFor (table : ClassTable) (id above : ClassId) : Bool :=
  let cls := table.get id
  cls.superclass == some above && cls.initState == .initializing && cls.initializer?.isNone

/-- A class and the classes that wait for it, directly or through others. A
subclass has a greater id than its superclass, so one pass finds them all. -/
def waiting (table : ClassTable) (id : ClassId) : List ClassId :=
  (List.range table.size).foldl (fun found index =>
    if found.any fun above => table.waitsFor ⟨index⟩ above then ⟨index⟩ :: found else found) [id]

/-- Records how the initializer of a class ended, for it and those that wait. -/
def finishInitialization (table : ClassTable) (id : ClassId) (succeeded : Bool) : ClassTable :=
  let state : InitState := if succeeded then .initialized else .failed
  (table.waiting id).foldl (fun table id =>
    table.modify id fun cls => { cls with initState := state }) table

end ClassTable

namespace Machine

/-- Takes the current frame off the stack and makes its caller current, at the
pc that `resume` selects. -/
@[inline] def dropFrame (machine : Machine) (resume : FrameContext → UInt32) : Machine :=
  machine.modifyExec fun exec =>
    let context := FrameContext.read exec.stack exec.startSp
    let stack := exec.stack.setSp (FrameContext.base exec.startSp)
    { exec with
      stack
      method := context.caller
      pc := resume context
      startSp := context.callerStartSp }

/-- Notes that the frame of an initializer is left. -/
def leaveInitializer (machine : Machine) (id : MethodId) (succeeded : Bool) : Machine :=
  if (machine.method id).isInitializer then
    machine.modifyTable fun table => table.finishInitialization id.owner succeeded
  else
    machine

end Machine

namespace Guest

/-- Takes a lock, or gives `false`. -/
def enterLock (lock : Lock) : Guest Bool := modifyGet fun machine => machine.enterLock lock

/-- Releases a lock, or gives `false`. -/
def exitLock (lock : Lock) : Guest Bool := modifyGet fun machine => machine.exitLock lock

/-- What a return does once the lock of the frame is released. -/
def handOver (id : MethodId) (value : Value) : Guest Step := do
  modify fun machine => machine.leaveInitializer id true
  modify fun machine => machine.dropFrame (·.returnPc)
  if (← get).exec.isIdle then do
    modify fun machine => machine.modifyExec fun exec => { exec with pc := 0, startSp := 0 }
    pure (.returned value)
  else do
    onStack fun stack => stack.pushValue value
    pure .next

/-- Returns a value from the current frame. -/
def returnFromFrame (value : Value) : Guest Step := do
  let machine ← get
  match machine.exec.method with
  | none => fault .noFrameToReturnFrom
  | some id => do
    match machine.frameLock? id with
    | none => pure ()
    | some lock =>
      if !(← exitLock lock) then raise .illegalMonitorStateException none
    handOver id value

end Guest

end Jvm
