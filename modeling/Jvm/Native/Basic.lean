import Jvm.Error
import Jvm.Slots.Stack

/-!
# Natives

A native method is implemented by the machine or by whoever embeds it. Those of
the machine are named here and given their meaning where the machine runs them.
Those of an embedder are *actions*: a finite script of requests to the machine,
each followed by what to do with its answer. Either kind sees its arguments as
slots, laid out like the locals of an interpreted method.

An action may make strings, call static methods, ask how deep an execution is
and end all executions. It has no other way to touch the machine: none that
reads or writes objects, pins them, defines classes, patches code or parks an
execution, as an embedder's native may that is handed the whole machine. So what
is proved of every native is proved of the machine's own and of these. It matters
where a result follows executions through calls of natives: what it says of
frames, the states of classes, locks, tagged slots, resolved constants,
breakpoints, steps and slices is for embedders that keep to these requests.
-/

namespace Jvm

/-- Argument slots of a native call: the receiver first, wide values in two
slots. Reads outside them give zero. -/
structure NativeArgs where
  slots : List Slot
  deriving DecidableEq, Inhabited

namespace NativeArgs

def slot (arguments : NativeArgs) (index : Nat) : Slot := arguments.slots.getD index 0

/-- Both slots of a wide argument; zero unless both are there. -/
def wide (arguments : NativeArgs) (index : Nat) : UInt64 :=
  if index + 1 < arguments.slots.length then
    Slots.wide (arguments.slot index) (arguments.slot (index + 1))
  else
    0

def int (arguments : NativeArgs) (index : Nat) : Int32 := (arguments.slot index).toInt32

def long (arguments : NativeArgs) (index : Nat) : Int64 := (arguments.wide index).toInt64

def float (arguments : NativeArgs) (index : Nat) : UInt32 := arguments.slot index

def double (arguments : NativeArgs) (index : Nat) : UInt64 := arguments.wide index

def ref (arguments : NativeArgs) (index : Nat) : Option Ref := Ref.ofSlot (arguments.slot index)

/-- The receiver of an instance method. -/
def receiver (arguments : NativeArgs) : Option Ref := arguments.ref 0

end NativeArgs

/-! ### The machine's own natives, by the class they belong to -/

inductive ObjectNative where
  | hashCode | getClass | clone | toText | notify
  deriving DecidableEq, Repr

/-- What a value is printed as. -/
inductive Printed where
  | string | int | long | float | double | boolean | char
  deriving DecidableEq, Repr

inductive StringNative where
  | length | isEmpty | charAt | equals | hashCode | intern | concat
  | valueOf (printed : Printed)
  deriving DecidableEq, Repr

inductive ClassNative where
  | getName | forName | isInstance | isArray | isInterface | getSuperclass
  deriving DecidableEq, Repr

inductive SystemNative where
  | arraycopy | identityHashCode | currentTimeMillis | nanoTime | gc
  deriving DecidableEq, Repr

inductive ThreadNative where
  | start | isAlive | sleep | yield | currentThread
  deriving DecidableEq, Repr

/-- Functions of one `double`. -/
inductive UnaryReal where
  | sin | cos | tan | asin | acos | atan | exp | log | log10 | sqrt | cbrt | floor | ceil | rint
  | abs
  deriving DecidableEq, Repr

/-- Functions of two `double`s. -/
inductive BinaryReal where
  | atan2 | pow | hypot | max | min
  deriving DecidableEq, Repr

inductive MathNative where
  | unary (function : UnaryReal)
  | binary (function : BinaryReal)
  | absInt | absLong | absFloat | maxInt | minInt | maxLong | minLong
  deriving DecidableEq, Repr

/-- Conversions between floating-point values and their bits. -/
inductive BitsNative where
  | rawBits | canonicalBits | ofBits | isNaN
  deriving DecidableEq, Repr

inductive PrintNative where
  | print (printed : Printed)
  | printLine (printed : Printed)
  | newLine
  | flush
  deriving DecidableEq, Repr

/-- A native of the machine. -/
inductive Builtin where
  | object (native : ObjectNative)
  | string (native : StringNative)
  | cls (native : ClassNative)
  | system (native : SystemNative)
  | thread (native : ThreadNative)
  | math (native : MathNative)
  | float (native : BitsNative)
  | double (native : BitsNative)
  | printStream (native : PrintNative)
  deriving DecidableEq, Repr

/-! ### Natives of an embedder -/

/-- What an embedder's native does, request by request. -/
inductive HostAction where
  /-- Return a value. -/
  | finish (value : Value)
  /-- Throw an object. -/
  | raise (exception : Ref)
  /-- End the execution with an error. -/
  | fail (error : Error)
  | newString (text : String) (next : Except Error Ref → HostAction)
  /-- Call a static method on the running execution. -/
  | invokeStatic (owner name descriptor : String) (arguments : List Value)
      (next : Except Error Value → HostAction)
  /-- Number of frames of an execution. -/
  | depth (exec : ExecId) (next : Nat → HostAction)
  /-- Ask the machine to end every execution. -/
  | terminate (next : HostAction)

instance : Inhabited HostAction := ⟨.finish .void⟩

/-- An implementation of a native method. -/
inductive Native where
  | builtin (builtin : Builtin)
  | host (action : NativeArgs → HostAction)

instance : Inhabited Native := ⟨.host fun _ => .finish .void⟩

end Jvm
