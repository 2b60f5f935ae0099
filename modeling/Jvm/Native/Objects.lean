import Jvm.Native.Text

/-!
# Natives on objects and classes

What every object can do, and what a class object knows of its class.
-/

namespace Jvm

namespace ObjectNative

open Guest

/-- Waking waiters asks for the monitor only: no execution ever waits. -/
def wake (receiver : Ref) : Guest Value := do
  let machine ← get
  let owned := (machine.heap.get? receiver).any fun object =>
    object.monitor.heldBy machine.exec.id
  if owned then pure .void
  else raise .illegalMonitorStateException (some "current thread is not owner")

/-- Class name and identity hash in hexadecimal. -/
def description (machine : Machine) (receiver : Ref) (cls : ClassId) : String :=
  let hash := (machine.identityHash receiver).toUInt32.toNat
  machine.displayName cls ++ "@" ++ Text.hexDigits hash

def run (native : ObjectNative) (arguments : NativeArgs) : Guest Value := do
  let receiver ← nonNull arguments.receiver "this"
  match native with
  | .hashCode => pure (.int ((← get).identityHash receiver))
  | .getClass => do pure (ofRef (← mirror (← classOf receiver)))
  | .clone => do pure (ofRef (← cloneObject receiver))
  | .toText => do
    let cls ← classOf receiver
    pure (ofRef (← newString (description (← get) receiver cls)))
  | .notify => wake receiver

end ObjectNative

namespace ClassNative

open Guest

/-- The class that the receiver stands for. -/
def thisClass (arguments : NativeArgs) : Guest ClassId := do
  let receiver ← nonNull arguments.receiver "this"
  require ((← get).mirrored? receiver) (.notMirror receiver)

/-- A class by its name with dots. It is loaded but not initialized. -/
def byName (arguments : NativeArgs) : Guest Value := do
  let ref ← nonNull (arguments.ref 0) "className"
  let name ← require ((← get).stringText? ref) (.notString ref)
  let missing : Guest Value := raise .classNotFoundException (some name)
  if name.contains '/' then missing
  else
    match ← loadRaw (name.map fun char => if char = '.' then '/' else char) with
    | .ok cls => do pure (ofRef (← mirror cls))
    | .error (.notFound _) => missing
    | .error error => fatal (.load error)

/-- The class object of the superclass; interfaces have none. -/
def superclassMirror (id : ClassId) : Guest Value := do
  let cls := (← get).cls id
  match if cls.isInterface then none else cls.superclass with
  | some above => do pure (ofRef (← mirror above))
  | none => pure (.ref none)

def run (native : ClassNative) (arguments : NativeArgs) : Guest Value := do
  match native with
  | .forName => byName arguments
  | .getName => do
    let id ← thisClass arguments
    pure (ofRef (← newString ((← get).displayName id)))
  | .isInstance => do
    let id ← thisClass arguments
    match arguments.ref 1 with
    | none => pure (ofBool false)
    | some ref => do
      let held ← classOf ref
      pure (ofBool ((← get).registry.isAssignable held id))
  | .isArray => do
    let id ← thisClass arguments
    pure (ofBool ((← get).cls id).isArray)
  | .isInterface => do
    let id ← thisClass arguments
    pure (ofBool ((← get).cls id).isInterface)
  | .getSuperclass => do superclassMirror (← thisClass arguments)

end ClassNative

end Jvm
