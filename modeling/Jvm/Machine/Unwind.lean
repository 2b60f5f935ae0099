import Jvm.Machine.Initialize

/-!
# Unwinding

A thrown object goes to the nearest handler. Frames without one are left on the
way, innermost first; when none remains the exception is reported to the host
with the frames it left.
-/

namespace Jvm

namespace Machine

/-- Leaves the current frame without a value. -/
def abandonFrame (machine : Machine) (id : MethodId) : Machine :=
  let machine :=
    match machine.frameLock? id with
    | some lock => (machine.exitLock lock).2
    | none => machine
  (machine.leaveInitializer id false).dropFrame (·.callerPc)

/-- Ends the running execution: it gives up its locks, and initializers that it
did not finish have failed. -/
def abandonExecution (machine : Machine) : Machine :=
  let machine := machine.releaseLocks machine.exec.id
  let machine := (machine.exec.frames.map (·.method)).foldl
    (fun machine id => machine.leaveInitializer id false) machine
  machine.modifyExec Execution.reset

/-- The report of an exception that nobody caught. -/
def uncaught (machine : Machine) (ref : Ref) (id : ClassId)
    (trace : List (MethodId × UInt32)) : Error :=
  .uncaught (machine.displayName id) (machine.throwableMessage? ref)
    (trace.map fun (method, pc) => machine.registry.describeFrame method pc)

end Machine

namespace Guest

/-- The first handler of a list that protects a pc and takes a class. A catch
type that does not load takes nothing. -/
def findHandlerIn (owner : ClassId) (pc : UInt32) (thrown : ClassId) :
    List Handler → Guest (Option UInt32)
  | [] => pure none
  | handler :: rest => do
    if !handler.covers pc then findHandlerIn owner pc thrown rest
    else if handler.catchType = 0 then pure (some handler.handlerPc.toUInt32)
    else
      match ← linkClass owner handler.catchType with
      | .ok caught =>
        if (← get).registry.isAssignable thrown caught then
          pure (some handler.handlerPc.toUInt32)
        else findHandlerIn owner pc thrown rest
      | .error _ => findHandlerIn owner pc thrown rest

/-- The handler of a method for an exception at a pc. -/
def findHandler (id : MethodId) (pc : UInt32) (thrown : ClassId) : Guest (Option UInt32) := do
  match ((← get).method id).code with
  | some code => findHandlerIn id.owner pc thrown code.handlers
  | none => pure none

/-- Goes on at a handler of the current frame, with the exception as the only
operand. -/
def enterHandler (id : MethodId) (handlerPc : UInt32) (ref : Ref) : Guest Unit :=
  modify fun machine =>
    let locals := (machine.method id).frameLocals
    machine.modifyExec fun exec =>
      { exec with
        stack := (exec.stack.setSp (exec.startSp + 1 + locals)).pushRef (some ref)
        pc := handlerPc }

/-- Unwinds through at most `fuel` frames. `trace` holds the frames met so far,
innermost last. -/
def unwindFrames (ref : Ref) (thrown : ClassId) :
    Nat → List (MethodId × UInt32) → Guest Unit
  | 0, _ => fatal .exhausted
  | fuel + 1, trace => do
    let machine ← get
    match machine.exec.method with
    | none => do
      modify fun machine => machine.modifyExec Execution.reset
      fatal (machine.uncaught ref thrown trace.reverse)
    | some id => do
      let pc := machine.exec.pc
      match ← findHandler id pc thrown with
      | some handlerPc => enterHandler id handlerPc ref
      | none => do
        modify fun machine => machine.abandonFrame id
        unwindFrames ref thrown fuel ((id, pc) :: trace)

/-- Transfers control to the nearest handler of a thrown object. The frames of
an execution have different starts, which bounds their number. -/
def unwind (ref : Ref) : Guest Unit := do
  let machine ← get
  match machine.heap.class? ref with
  | none => fault (.thrownNotLive ref)
  | some thrown => unwindFrames ref thrown (machine.exec.stack.slots.size + 8) []

end Guest

namespace Host

/-- A guest step that throws no object. -/
def ofGuest {α : Type} (step : Guest α) : Host α := fun machine =>
  match step machine with
  | .ok value machine => .ok value machine
  | .error (.fatal error) machine => .error error machine
  | .error (.exception ref) machine =>
    .error (.uncaught ((machine.classNameOf ref).getD "") (machine.throwableMessage? ref) [])
      machine

/-- Transfers control to the nearest handler of a thrown object, or fails with
the exception. -/
def unwind (ref : Ref) : Host Unit := ofGuest (Guest.unwind ref)

end Host

end Jvm
