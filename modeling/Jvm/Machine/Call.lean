import Jvm.Machine.Parking
import Jvm.Native.Numbers
import Jvm.Native.Objects
import Jvm.Native.System
import Jvm.Native.Threads

/-!
# Calling methods

A call takes its arguments from the stack of the running execution. A method
with code gets a frame; a native runs at once and leaves its result on the
stack. Either runs under the lock of a synchronized method.
-/

/-!
## Running natives

Every native gives a value for its argument slots, or throws. The machine's own
are selected by their class; the script of an embedder's native is followed
request by request.
-/

namespace Jvm

namespace Builtin

def run (reentry : Reentry) (builtin : Builtin) (arguments : NativeArgs) : Guest Value :=
  match builtin with
  | .object native => native.run arguments
  | .string native => native.run arguments
  | .cls native => native.run arguments
  | .system native => native.run arguments
  | .thread native => native.run reentry arguments
  | .math native => pure (native.run arguments)
  | .float native => pure (native.runSingle arguments)
  | .double native => pure (native.runDouble arguments)
  | .printStream native => native.run arguments

end Builtin

namespace HostAction

/-- A request to the host side of the machine, and its answer. -/
def request {α : Type} (step : Host α) : Guest (Except Error α) := fun machine =>
  match step machine with
  | .ok value machine => .ok (.ok value) machine
  | .error error machine => .ok (.error error) machine

/-- Follows a script to its end. -/
def run (reentry : Reentry) : HostAction → Guest Value
  | .finish value => pure value
  | .raise exception => throw (.exception exception)
  | .fail error => Guest.fatal error
  | .newString text next => do
    let made ← request (Host.ofGuest (Guest.newString text))
    (next made).run reentry
  | .invokeStatic owner name descriptor arguments next => do
    let result ← request do
      let method ← Host.findStatic owner name descriptor
      reentry.call method arguments
    (next result).run reentry
  | .depth exec next => do
    let machine ← get
    (next (machine.depth exec)).run reentry
  | .terminate next => do
    modify Machine.terminate
    next.run reentry

end HostAction

namespace Native

def run (reentry : Reentry) (native : Native) (arguments : NativeArgs) : Guest Value :=
  match native with
  | .builtin own => own.run reentry arguments
  | .host action => (action arguments).run reentry

end Native

end Jvm

/-! ## Calls -/

namespace Jvm.Guest

/-- The native that implements a method, looked up by name on the first call. -/
def bindNative (id : MethodId) : Guest Native := do
  let machine ← get
  let method := machine.method id
  match method.native with
  | some native => pure native
  | none => do
    let cls := machine.cls id.owner
    match machine.natives.find? cls.name method.name method.descriptor with
    | some native => do
      modify fun machine => machine.modifyTable fun table =>
        table.modifyMethod id fun method => { method with native := some native }
      pure native
    | none =>
      raise .unsatisfiedLinkError
        (some s!"'{method.descriptor} {cls.displayName}.{method.name}'")

/-- Runs a native on the arguments on top of the stack and takes them off. -/
def callNative (reentry : Reentry) (id : MethodId) : Guest Value := do
  let native ← bindNative id
  let machine ← get
  let size := (machine.method id).frameArgSlots.toNat
  let sp := machine.exec.stack.sp
  if sp < size then fault (.stackUnderflow (machine.methodLabel id))
  else do
    let base := sp - size
    let value ← native.run reentry ⟨machine.exec.stack.rawSlots base size⟩
    onStack fun stack => stack.setSp base
    pure value

/-- Releases a lock if one was taken. -/
def releaseLock (lock : Option Lock) (machine : Machine) : Machine :=
  match lock with
  | some lock => (machine.exitLock lock).2
  | none => machine

/-- Takes the lock of a call if it has one, or gives `false`. -/
def takeLock (lock : Option Lock) : Guest Bool :=
  match lock with
  | some lock => enterLock lock
  | none => pure true

/-- The lock that a call of a method takes, by the receiver on the stack. -/
def callLock? (machine : Machine) (id : MethodId) : Option Lock :=
  let size := (machine.method id).frameArgSlots.toNat
  machine.lockOf? id (machine.exec.stack.peekRef (size - 1))

/-- Calls a method with its arguments on the stack. A frame returns to
`returnPc`; a native leaves its result and goes on there. -/
def invoke (reentry : Reentry) (id : MethodId) (callerPc returnPc : UInt32) : Guest Step := do
  let machine ← get
  let method := machine.method id
  if method.isAbstract then
    raise .abstractMethodError (some (machine.methodLabel id))
  else
    let lock := callLock? machine id
    if !(← takeLock lock) then pure .blocked
    else if method.isNative then do
      let value ← onThrow (callNative reentry id) (releaseLock lock)
      modify fun machine => (releaseLock lock machine).modifyExec fun exec =>
        { exec with stack := exec.stack.pushValue value, pc := returnPc }
      pure .next
    else do
      onThrow (pushFrame id callerPc returnPc) (releaseLock lock)
      pure .next

end Jvm.Guest
