import Jvm.Machine.Access
import Jvm.Machine.Arrays
import Jvm.Slots.Arithmetic

/-!
# Steps

A step runs the instruction at the pc of the current frame. It ends with the pc
of the next instruction, with a new current frame, or by throwing; when a lock
is held elsewhere or the debugger stops, it ends with nothing done and runs
again later.
-/

namespace Jvm

/-!
## Stops

Before an instruction runs, the debugger may stop the execution: on request, at
the end of a step or at a breakpoint. The place of the stop is noted, so that
the instruction runs once the execution goes on. A breakpoint is a byte patched
into the code; the byte under it is kept.
-/

namespace Machine

/-- Where and why the running execution stops. -/
def stopAt (machine : Machine) (reason : StopReason) (id : MethodId) (pc : UInt32) : StopEvent :=
  { exec := machine.exec.id, reason, method := id, location := machine.methodLabel id
    line := (machine.method id).lineOf pc, pc, depth := machine.exec.depth }

/-- Reports a stop; `false` if another one is pending. -/
def reportStop (machine : Machine) (reason : StopReason) (id : MethodId) (pc : UInt32) :
    Bool × Machine :=
  let (reported, debugger) := machine.debugger.report (machine.stopAt reason id pc)
  (reported, { machine with debugger })

/-- Reports a stop and notes the instruction to go on with. -/
def stopBefore (machine : Machine) (reason : StopReason) (id : MethodId) (pc : UInt32) :
    Bool × Machine :=
  let (reported, machine) := machine.reportStop reason id pc
  if reported then
    (true, machine.modifyExec fun exec => { exec with skipBreakpoint := some (id, pc) })
  else
    (false, machine)

/-- Asks an armed debugger whether to stop before the instruction at a pc. -/
def checkStop (machine : Machine) (id : MethodId) (pc : UInt32) : Bool × Machine :=
  if machine.debuggerAttached && machine.debugger.armed then
    let place : StepPlace := ⟨id, (machine.method id).lineOf pc, pc, machine.exec.depth⟩
    match machine.debugger.shouldStop machine.exec.id place with
    | (some reason, debugger) => { machine with debugger }.stopBefore reason id pc
    | (none, debugger) => (false, { machine with debugger })
  else
    (false, machine)

/-- The byte under a breakpoint. -/
def breakpoint? (machine : Machine) (id : MethodId) (pc : UInt32) : Option UInt8 :=
  machine.breakpoints.lookup (id, pc)

/-- Stops before an object is thrown, if the debugger breaks on exceptions. The
object is kept and goes on being thrown when the execution does. -/
def stopOnThrow (machine : Machine) (ref : Ref) : Bool × Machine :=
  if machine.debuggerAttached && machine.debugger.breakOnException then
    match machine.exec.method, machine.classNameOf ref with
    | some id, some className =>
      let reason := StopReason.exception className (machine.throwableMessage? ref)
      let (reported, machine) := machine.reportStop reason id machine.exec.pc
      if reported then
        (true, machine.modifyExec fun exec => { exec with pendingException := some ref })
      else
        (false, machine)
    | _, _ => (false, machine)
  else
    (false, machine)

end Machine

/-! ## Instructions -/

namespace Guest

/-- What is wrong with the bytes of an instruction. -/
def ofDecodeFault {α : Type} (id : MethodId) (decodeFault : DecodeFault) : Guest α := do
  let label := (← get).methodLabel id
  match decodeFault with
  | .outside pc => fault (.pcOutsideCode pc label)
  | .unknown byte pc => fatal (.unknownOpcode byte label pc)
  | .notWidenable opcode => fault (.notWidenable opcode.mnemonic)

/-- Something read from the code of a method. -/
def ofDecode {α : Type} (id : MethodId) : Except DecodeFault α → Guest α
  | .ok value => pure value
  | .error decodeFault => ofDecodeFault id decodeFault

/-- Changes the stack and goes on at a pc. -/
@[inline] def compute (next : UInt32) (change : Stack → Stack) : Guest Step := do
  modify fun machine => machine.modifyExec fun exec =>
    { exec with stack := change exec.stack, pc := next }
  pure .next

/-- Changes the stack in a way that a division by zero may prevent. -/
def divide (next : UInt32) (change : Stack → Bool × Stack) : Guest Step := do
  if ← fromStack change then proceed next
  else raise .arithmeticException (some "/ by zero")

/-- Goes on at a pc plus an offset that the code holds. -/
def jumpBy (id : MethodId) (pc : UInt32) (offset : Except DecodeFault UInt32) : Guest Step := do
  proceed (pc + (← ofDecode id offset))

/-- A branch of two or four offset bytes. -/
def offsetAt (code : Array UInt8) (pc : UInt32) (far : Bool) : Except DecodeFault UInt32 :=
  if far then Bytecode.farOffset code (pc + 1) else Bytecode.nearOffset code (pc + 1)

/-- Runs an instruction of a method; `next` is the pc behind it. -/
def execute (reentry : Reentry) (id : MethodId) (code : Array UInt8) (pc next : UInt32)
    (instr : Instr) : Guest Step := do
  match instr with
  | .nop => proceed next
  | .push value => compute next fun stack => stack.pushValue value
  | .constant index => pushConstant id.owner index next
  | .load transfer index => do
    let slot := (← get).exec.localSlot index.toNat
    compute next fun stack => stack.load transfer slot
  | .store transfer index => do
    let slot := (← get).exec.localSlot index.toNat
    compute next fun stack => stack.store transfer slot
  | .arrayLoad => do
    loadElement
    proceed next
  | .arrayStore kind => do
    storeElement kind
    proceed next
  | .discard count => compute next fun stack => stack.discard count
  | .dup count skip => compute next fun stack => stack.dup count skip
  | .swap => compute next Stack.swap
  | .intOp op => divide next fun stack => stack.applyInt op
  | .longOp op => divide next fun stack => stack.applyLong op
  | .intShift op => compute next fun stack => stack.shiftInt op
  | .longShift op => compute next fun stack => stack.shiftLong op
  | .floatOp op => compute next fun stack => stack.combine op.onFloat
  | .doubleOp op => compute next fun stack => stack.combineWide op.onDouble
  | .negate kind => compute next fun stack => stack.negate kind
  | .convert conversion => compute next fun stack => stack.convert conversion
  | .compareLong => compute next Stack.compareLong
  | .compareFloat nan => compute next fun stack => stack.compareFloat nan
  | .compareDouble nan => compute next fun stack => stack.compareDouble nan
  | .increment index delta => do
    let slot := (← get).exec.localSlot index.toNat
    compute next fun stack => stack.increment slot delta
  | .branch condition => do
    if ← fromStack fun stack => stack.decideCondition condition then
      jumpBy id pc (offsetAt code pc false)
    else proceed next
  | .jump far => jumpBy id pc (offsetAt code pc far)
  | .jumpSubroutine far => do
    onStack fun stack => stack.push next
    jumpBy id pc (offsetAt code pc far)
  | .returnSubroutine index => do
    let exec := (← get).exec
    proceed (exec.stack.raw (exec.localSlot index.toNat))
  | .tableSwitch => do
    let key ← fromStack Stack.pop
    jumpBy id pc (Bytecode.tableOffset code pc key.toInt32)
  | .lookupSwitch => do
    let key ← fromStack Stack.pop
    jumpBy id pc (Bytecode.lookupOffset code pc key.toInt32)
  | .leave none => returnFromFrame .void
  | .leave (some kind) => do
    returnFromFrame (← fromStack fun stack => stack.popValue kind)
  | .getStatic index => getStatic id.owner index pc next
  | .putStatic index => setStatic id.owner index pc next
  | .getField index => getField id.owner index next
  | .putField index => setField id.owner index next
  | .invoke mode index => invokeInstance reentry mode id.owner index pc next
  | .invokeStatic index => invokeStatic reentry id.owner index pc next
  | .invokeDynamic => mismatch "Invokedynamic instructions are not supported"
  | .newObject index => pushInstance id.owner index pc next
  | .newArray element => pushPrimitiveArray element next
  | .newRefArray index => pushRefArray id.owner index next
  | .newMultiArray index dimensions => do
    if dimensions = 0 then fault (.zeroDimensions ((← get).methodLabel id) pc)
    let cls ← resolveClass id.owner index
    pushNestedArray cls dimensions.toNat
    proceed next
  | .arrayLength => do
    arrayLength
    proceed next
  | .throwRef => do
    match ← fromStack Stack.popRef with
    | some ref => throw (.exception ref)
    | none => raiseNull "Cannot throw exception because value is null"
  | .checkCast index => checkCast id.owner index next
  | .instanceOf index => testInstance id.owner index next
  | .enterMonitor => enterMonitor next
  | .exitMonitor => exitMonitor next

/-- Takes note of the instruction that was to run without another stop. -/
def takeResumed (id : MethodId) (pc : UInt32) : Guest Bool := do
  match (← get).exec.skipBreakpoint with
  | none => pure false
  | some place => do
    modify fun machine => machine.modifyExec fun exec => { exec with skipBreakpoint := none }
    pure (place == (id, pc))

/-- The byte under a breakpoint, or `none` to stop before it. -/
def underBreakpoint (id : MethodId) (pc : UInt32) (resumed : Bool) : Guest (Option UInt8) := do
  let machine ← get
  match machine.breakpoint? id pc with
  | none => fatal (.unknownOpcode Opcode.breakpoint.byte (machine.methodLabel id) pc)
  | some byte =>
    if !machine.debuggerAttached || resumed then pure (some byte)
    else if ← modifyGet fun machine => machine.stopBefore .breakpoint id pc then pure none
    else pure (some byte)

/-- The byte to execute at a pc, or `none` to stop before it. -/
def fetch (id : MethodId) (pc : UInt32) (byte : UInt8) : Guest (Option UInt8) := do
  let resumed ← takeResumed id pc
  if !resumed then
    if ← modifyGet fun machine => machine.checkStop id pc then return none
  if byte = Opcode.breakpoint.byte then underBreakpoint id pc resumed
  else pure (some byte)

/-- Decodes and runs the instruction that starts with a byte. -/
def executeByte (reentry : Reentry) (id : MethodId) (code : Array UInt8) (pc : UInt32)
    (byte : UInt8) : Guest Step := do
  match Opcode.ofByte byte with
  | none => ofDecodeFault id (.unknown byte pc)
  | some opcode => do
    let (instr, next) ← ofDecode id (Instr.decode code pc opcode)
    execute reentry id code pc next instr

/-- Runs the instruction at the current pc. -/
def step (reentry : Reentry) : Guest Step := do
  let machine ← get
  match machine.exec.method with
  | none => fault .noFrame
  | some id => do
    let pc := machine.exec.pc
    let code := (machine.method id).code.elim #[] (·.bytecode)
    let byte ← ofDecode id (Bytecode.byte code pc)
    match ← fetch id pc byte with
    | none => pure .suspended
    | some byte => executeByte reentry id code pc byte

end Guest

end Jvm
