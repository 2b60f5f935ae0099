import Jvm.Machine.Allocate
import Jvm.Native.Basic

/-!
# Natives on text

The natives of strings work on the UTF-16 units of the receiver, whatever form
its bytes have; those of print streams write the text of their argument to the
console that the stream's descriptor selects.
-/

namespace Jvm

namespace Guest

/-- A reference that must not be null; `what` names it in the exception. -/
def nonNull (ref : Option Ref) (what : String) : Guest Ref :=
  match ref with
  | some ref => pure ref
  | none => raiseNull s!"{what} is null"

/-- Units of a string that must not be null. -/
def unitsOf (ref : Option Ref) : Guest (List UInt16) := do
  let ref ← nonNull ref "string"
  require ((← get).stringUnits? ref) (.notString ref)

/-- A boolean result. -/
def ofBool (answer : Bool) : Value := .int (if answer then 1 else 0)

/-- A reference result. -/
def ofRef (ref : Ref) : Value := .ref (some ref)

end Guest

namespace Printed

open Guest

/-- Text of the argument at an index. What is no string prints as null, and a
lone surrogate as the replacement character. -/
def text (machine : Machine) (arguments : NativeArgs) (index : Nat) : Printed → String
  | .string => ((arguments.ref index).bind machine.stringText?).getD "null"
  | .int => toString (arguments.int index).toInt
  | .long => toString (arguments.long index).toInt
  | .float => Decimal.floatText (arguments.float index)
  | .double => Decimal.doubleText (arguments.double index)
  | .boolean => if arguments.int index = 0 then "false" else "true"
  | .char => Text.ofUnits [(arguments.slot index).toUInt16]

/-- A new string of the argument at an index. A character keeps its unit. -/
def toObject (printed : Printed) (arguments : NativeArgs) (index : Nat) : Guest Ref := do
  match printed with
  | .char => newStringOfUnits [(arguments.slot index).toUInt16]
  | printed => newString (printed.text (← get) arguments index)

end Printed

namespace StringNative

open Guest

/-- The unit at an index. -/
def unitAt (units : List UInt16) (index : Int32) : Guest Value :=
  let found := if index < 0 then none else units[index.toNatClampNeg]?
  match found with
  | some unit => pure (.int unit.toUInt32.toInt32)
  | none =>
    raise .stringIndexOutOfBoundsException (some (outOfBoundsText index units.length))

/-- Whether an object is the receiver or a string of the same units. -/
def sameText (machine : Machine) (receiver : Ref) (other : Option Ref) : Bool :=
  match other with
  | none => false
  | some other =>
    other == receiver ||
      match machine.stringUnits? receiver, machine.stringUnits? other with
      | some left, some right => left == right
      | _, _ => false

/-- The hash of the receiver, computed on first use and kept in its field. A hash
of zero is computed every time. -/
def textHash (receiver : Ref) : Guest Value := do
  let slot := (← get).known.stringHash
  let cached := ((← get).heap.fields? receiver).elim 0 fun fields => fields.getInt slot
  if cached ≠ 0 then pure (.int cached)
  else do
    let hash := Text.hashUnits (← unitsOf (some receiver))
    modify fun machine => machine.modifyHeap fun heap => heap.modifyFields receiver fun fields =>
      fields.setInt slot hash
    pure (.int hash)

/-- Joins the receiver and a tail. Without a tail the result is the receiver. -/
def join (receiver other : Option Ref) : Guest Value := do
  let units ← unitsOf receiver
  let tail ← unitsOf other
  if tail.isEmpty then pure (.ref receiver)
  else do pure (ofRef (← newStringOfUnits (units ++ tail)))

def run (native : StringNative) (arguments : NativeArgs) : Guest Value := do
  let receiver := arguments.receiver
  match native with
  | .length => pure (.int (Int32.ofNat (← unitsOf receiver).length))
  | .isEmpty => pure (ofBool (← unitsOf receiver).isEmpty)
  | .charAt => unitAt (← unitsOf receiver) (arguments.int 1)
  | .equals => do
    let receiver ← nonNull receiver "this"
    pure (ofBool (sameText (← get) receiver (arguments.ref 1)))
  | .hashCode => textHash (← nonNull receiver "this")
  | .intern => do
    let receiver ← nonNull receiver "this"
    let canonical ← require (← internObject? receiver) (.notString receiver)
    pure (ofRef canonical)
  | .concat => join receiver (arguments.ref 1)
  | .valueOf printed => do pure (ofRef (← printed.toObject arguments 0))

end StringNative

namespace PrintNative

open Guest

/-- The descriptor that a stream writes to: that of the output if it has none. -/
def descriptor (machine : Machine) (stream : Ref) : Int32 :=
  (machine.heap.fields? stream).elim 1 fun fields => fields.getInt machine.known.streamDescriptor

/-- What is written. -/
def written (native : PrintNative) (machine : Machine) (arguments : NativeArgs) : String :=
  match native with
  | .print printed => printed.text machine arguments 1
  | .printLine printed => printed.text machine arguments 1 ++ "\n"
  | .newLine => "\n"
  | .flush => ""

def run (native : PrintNative) (arguments : NativeArgs) : Guest Value := do
  let stream ← nonNull arguments.receiver "this"
  let machine ← get
  let text := native.written machine arguments
  let target := descriptor machine stream
  modify fun machine => machine.write target text
  pure .void

end PrintNative

end Jvm
