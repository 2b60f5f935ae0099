import Jvm.Machine.Parking
import Jvm.Opcode

/-!
# Breakpoints

A breakpoint replaces the byte of an instruction by one that stops the debugged
execution, and remembers the byte. Setting it twice changes nothing, and
clearing it restores the byte.
-/

namespace Jvm

namespace Machine

/-- Changes a byte of a method's code. -/
def patch (machine : Machine) (id : MethodId) (pc : UInt32) (byte : UInt8) : Machine :=
  machine.modifyTable fun table => table.modifyMethod id fun method =>
    { method with code := method.code.map fun code =>
        { code with bytecode := code.bytecode.setIfInBounds pc.toNat byte } }

/-- Restores the byte under a breakpoint, or gives `false` if there is none. -/
def clearBreakpoint (machine : Machine) (id : MethodId) (pc : UInt32) : Bool × Machine :=
  match machine.breakpoints.lookup (id, pc) with
  | none => (false, machine)
  | some byte =>
    (true, { machine.patch id pc byte with
      breakpoints := machine.breakpoints.filter fun (place, _) => place ≠ (id, pc) })

/-- Restores the bytes under all breakpoints. -/
def clearBreakpoints (machine : Machine) : Machine :=
  (machine.breakpoints.map Prod.fst).foldl
    (fun machine (id, pc) => (machine.clearBreakpoint id pc).2) machine

end Machine

namespace Host

/-- A method that its class declares itself and that has code. -/
def findCode (className name descriptor : String) : Host MethodId := do
  let owner ← load className
  let machine ← get
  match (machine.cls owner).declaredMethod? name descriptor with
  | none => throw (.methodNotFound className name descriptor)
  | some id =>
    if (machine.method id).code.isNone then fault (.noBytecode (machine.methodLabel id))
    else pure id

/-- Sets a breakpoint at a pc and gives its method. -/
def setBreakpoint (className name descriptor : String) (pc : UInt32) : Host MethodId := do
  let id ← findCode className name descriptor
  let machine ← get
  if (machine.breakpoints.lookup (id, pc)).isSome then pure id
  else
    match (machine.method id).code.bind fun code => code.bytecode[pc.toNat]? with
    | none => fault (.pcOutsideMethod pc (machine.methodLabel id))
    | some byte => do
      modify fun machine => { machine.patch id pc Opcode.breakpoint.byte with
        breakpoints := ((id, pc), byte) :: machine.breakpoints }
      pure id

/-- Sets a breakpoint on the first instruction of a line. -/
def setLineBreakpoint (className name descriptor : String) (line : UInt32) : Host MethodId := do
  let id ← findCode className name descriptor
  let machine ← get
  match (machine.method id).pcOfLine line with
  | none => fault (.noCodeOnLine (machine.methodLabel id) line)
  | some pc => setBreakpoint className name descriptor pc

end Host

end Jvm
