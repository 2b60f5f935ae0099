import Jvm.Machine.Parking

/-!
# Inspection

What a host can see and steer without running anything: objects, their fields
and elements, the frames of stopped or waiting executions, the consoles and the
debugger.
-/

namespace Jvm.Machine

/-- The frames of an execution, innermost first. -/
def frames (machine : Machine) (exec : ExecId) : List Frame :=
  (machine.execution? exec).elim [] Execution.frames

/-- A frame of an execution by its distance from the innermost. -/
def frame? (machine : Machine) (exec : ExecId) (index : Nat) : Option Frame :=
  (machine.execution? exec).bind fun exec => exec.frame? index

/-- A local slot of a frame: a reference if the slot holds one, its bits as an
`int` otherwise. -/
def localAt? (machine : Machine) (exec : ExecId) (frame index : Nat) : Option Value := do
  let exec ← machine.execution? exec
  let frame ← exec.frame? frame
  let slot := frame.locals + index
  if frame.top ≤ slot then none
  else if exec.stack.isRef slot then some (.ref (exec.stack.loadRef slot))
  else some (.int (exec.stack.raw slot).toInt32)

/-- The 64 bits of two local slots of a frame. -/
def wideLocalAt? (machine : Machine) (exec : ExecId) (frame index : Nat) : Option Int64 := do
  let exec ← machine.execution? exec
  let frame ← exec.frame? frame
  let slot := frame.locals + index
  if frame.top ≤ slot + 1 then none else some (exec.stack.rawWide slot).toInt64

/-- An instance field by name, nearest class first. -/
def fieldOf? (machine : Machine) (ref : Ref) (name : String) : Option Value := do
  let object ← machine.heap.get? ref
  let fields ← object.fields?
  let declared ← (machine.registry.superChain object.cls).findSome? fun id =>
    (machine.cls id).fields.find? fun field => !field.isStatic && field.name == name
  some (fields.read declared.slot.toNat declared.kind)

/-- An element of an array. -/
def elementOf? (machine : Machine) (ref : Ref) (index : Nat) : Option Value :=
  (machine.heap.array? ref).bind fun data => data.get? index

/-- Number of elements of an array. -/
def arraySize? (machine : Machine) (ref : Ref) : Option Nat :=
  (machine.heap.array? ref).map (·.size)

/-- Whether a handle is that of a live object. -/
def isLive (machine : Machine) (ref : Ref) : Bool := machine.heap.isLive ref

/-- Keeps an object until it is unpinned as often as it was pinned. -/
def pin (machine : Machine) (ref : Ref) : Machine := machine.modifyHeap fun heap => heap.pin ref

def unpin (machine : Machine) (ref : Ref) : Machine :=
  machine.modifyHeap fun heap => heap.unpin ref

/-- The accounts of the heap. -/
def heapStats (machine : Machine) : HeapStats := machine.heap.stats

/-- Takes what was written to the output and to the error console. -/
def takeOutput (machine : Machine) : (String × String) × Machine :=
  ((machine.output, machine.errorOutput), { machine with output := "", errorOutput := "" })

/-- Lets the debugger stop executions. Its state is that of before. -/
def attachDebugger (machine : Machine) : Machine := { machine with debuggerAttached := true }

/-- Takes the debugger off; gives whether there was one. -/
def detachDebugger (machine : Machine) : Bool × Machine :=
  (machine.debuggerAttached, { machine with debuggerAttached := false })

/-- Stops whatever runs the next instruction. -/
def requestStop (machine : Machine) : Machine :=
  { machine with debugger := machine.debugger.requestStop }

/-- Stops when an exception is thrown, or does so no more. -/
def setExceptionBreak (machine : Machine) (enabled : Bool) : Machine :=
  { machine with debugger := machine.debugger.setExceptionBreak enabled }

/-- What is stopped, and why. -/
def stopEvent? (machine : Machine) : Option StopEvent := machine.debugger.stopped

def isStopped (machine : Machine) : Bool := machine.debugger.isStopped

/-- Lets the stopped execution go on; gives whether there was one. -/
def resume (machine : Machine) : Bool × Machine :=
  let (resumed, debugger) := machine.debugger.resume
  (resumed, { machine with debugger })

/-- Lets the stopped execution go on until a step ends. -/
def takeStep (machine : Machine) (mode : StepMode) : Except Error Machine := do
  let debugger ← machine.debugger.takeStep mode
  pure { machine with debugger }

end Jvm.Machine
