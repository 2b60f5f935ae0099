import Jvm.Arith
import Jvm.Instr
import Jvm.Slots.Stack

/-!
# Arithmetic on operands

Instructions that compute take their operands from the top of a stack and put
the result back. Integers wrap around; only the division of integers by zero has
no result.
-/

namespace Jvm

namespace IntOp

/-- The operation on 32-bit integers; a division by zero has no result. -/
def onInt (op : IntOp) (left right : Int32) : Option Int32 :=
  match op with
  | .add => some (left + right)
  | .sub => some (left - right)
  | .mul => some (left * right)
  | .div => if right = 0 then none else some (left / right)
  | .rem => if right = 0 then none else some (left % right)
  | .and => some (left &&& right)
  | .or => some (left ||| right)
  | .xor => some (left ^^^ right)

/-- The operation on 64-bit integers; a division by zero has no result. -/
def onLong (op : IntOp) (left right : Int64) : Option Int64 :=
  match op with
  | .add => some (left + right)
  | .sub => some (left - right)
  | .mul => some (left * right)
  | .div => if right = 0 then none else some (left / right)
  | .rem => if right = 0 then none else some (left % right)
  | .and => some (left &&& right)
  | .or => some (left ||| right)
  | .xor => some (left ^^^ right)

end IntOp

namespace ShiftOp

/-- The shift of a 32-bit integer, by the distance modulo 32. -/
def onInt (op : ShiftOp) (value : Int32) (distance : Int32) : Int32 :=
  let distance := distance.toUInt32 &&& 0x1F
  match op with
  | .left => (value.toUInt32 <<< distance).toInt32
  | .right => value >>> distance.toInt32
  | .rightUnsigned => (value.toUInt32 >>> distance).toInt32

/-- The shift of a 64-bit integer, by the distance modulo 64. -/
def onLong (op : ShiftOp) (value : Int64) (distance : Int32) : Int64 :=
  let distance := (distance.toUInt32 &&& 0x3F).toUInt64
  match op with
  | .left => (value.toUInt64 <<< distance).toInt64
  | .right => value >>> distance.toInt64
  | .rightUnsigned => (value.toUInt64 >>> distance).toInt64

end ShiftOp

namespace RealOp

def onFloat : RealOp → UInt32 → UInt32 → UInt32
  | .add => Single.add
  | .sub => Single.sub
  | .mul => Single.mul
  | .div => Single.div
  | .rem => Single.rem

def onDouble : RealOp → UInt64 → UInt64 → UInt64
  | .add => Double.add
  | .sub => Double.sub
  | .mul => Double.mul
  | .div => Double.div
  | .rem => Double.rem

end RealOp

namespace Stack

/-! ### Typed operands -/

def pushInt (stack : Stack) (value : Int32) : Stack := stack.push value.toUInt32

def popInt (stack : Stack) : Int32 × Stack :=
  let (slot, stack) := stack.pop
  (slot.toInt32, stack)

def pushLong (stack : Stack) (value : Int64) : Stack := stack.pushWide value.toUInt64

def popLong (stack : Stack) : Int64 × Stack :=
  let (bits, stack) := stack.popWide
  (bits.toInt64, stack)

/-- Replaces the top slot by a function of it. -/
@[inline] def mapTop (stack : Stack) (change : Slot → Slot) : Stack :=
  let (slot, stack) := stack.pop
  stack.push (change slot)

/-- Replaces the two top slots by a function of them. -/
@[inline] def combine (stack : Stack) (join : Slot → Slot → Slot) : Stack :=
  let (right, stack) := stack.pop
  let (left, stack) := stack.pop
  stack.push (join left right)

/-- Replaces the two top wide values by a function of them. -/
@[inline] def combineWide (stack : Stack) (join : UInt64 → UInt64 → UInt64) : Stack :=
  let (right, stack) := stack.popWide
  let (left, stack) := stack.popWide
  stack.pushWide (join left right)

/-! ### Instructions -/

/-- An operation on two `int`s. Without a result the operands are gone. -/
def applyInt (stack : Stack) (op : IntOp) : Bool × Stack :=
  let (right, stack) := stack.popInt
  let (left, stack) := stack.popInt
  match op.onInt left right with
  | some result => (true, stack.pushInt result)
  | none => (false, stack)

/-- An operation on two `long`s. Without a result the operands are gone. -/
def applyLong (stack : Stack) (op : IntOp) : Bool × Stack :=
  let (right, stack) := stack.popLong
  let (left, stack) := stack.popLong
  match op.onLong left right with
  | some result => (true, stack.pushLong result)
  | none => (false, stack)

def shiftInt (stack : Stack) (op : ShiftOp) : Stack :=
  let (distance, stack) := stack.popInt
  let (value, stack) := stack.popInt
  stack.pushInt (op.onInt value distance)

def shiftLong (stack : Stack) (op : ShiftOp) : Stack :=
  let (distance, stack) := stack.popInt
  let (value, stack) := stack.popLong
  stack.pushLong (op.onLong value distance)

/-- Negates the top value of a kind. -/
def negate (stack : Stack) (kind : Kind) : Stack :=
  match kind with
  | .long =>
    let (value, stack) := stack.popLong
    stack.pushLong (-value)
  | .double =>
    let (bits, stack) := stack.popWide
    stack.pushWide (Double.neg bits)
  | .float => stack.mapTop Single.neg
  | _ => stack.mapTop fun slot => -slot

/-- Compares two `long`s. -/
def compareLong (stack : Stack) : Stack :=
  let (right, stack) := stack.popLong
  let (left, stack) := stack.popLong
  stack.pushInt (if left < right then -1 else if left = right then 0 else 1)

/-- Compares two `float`s; `nan` is the answer for a NaN. -/
def compareFloat (stack : Stack) (nan : Int32) : Stack :=
  stack.combine fun left right => (Single.compare left right nan).toUInt32

/-- Compares two `double`s; `nan` is the answer for a NaN. -/
def compareDouble (stack : Stack) (nan : Int32) : Stack :=
  let (right, stack) := stack.popWide
  let (left, stack) := stack.popWide
  stack.pushInt (Double.compare left right nan)

/-- Turns one slot into two. -/
@[inline] def widen (stack : Stack) (change : Slot → UInt64) : Stack :=
  let (slot, stack) := stack.pop
  stack.pushWide (change slot)

/-- Turns two slots into one. -/
@[inline] def cut (stack : Stack) (change : UInt64 → Slot) : Stack :=
  let (bits, stack) := stack.popWide
  stack.push (change bits)

/-- Changes two slots. -/
@[inline] def mapWide (stack : Stack) (change : UInt64 → UInt64) : Stack :=
  let (bits, stack) := stack.popWide
  stack.pushWide (change bits)

/-- Converts the top value. -/
def convert (stack : Stack) (conversion : Conversion) : Stack :=
  match conversion with
  | .intToLong => stack.widen fun slot => slot.toInt32.toInt64.toUInt64
  | .intToFloat => stack.mapTop fun slot => Single.ofInt slot.toInt32
  | .intToDouble => stack.widen fun slot => Double.ofInt slot.toInt32
  | .longToInt => stack.cut fun bits => bits.toUInt32
  | .longToFloat => stack.cut fun bits => Single.ofLong bits.toInt64
  | .longToDouble => stack.mapWide fun bits => Double.ofLong bits.toInt64
  | .floatToInt => stack.mapTop fun slot => (Single.toInt slot).toUInt32
  | .floatToLong => stack.widen fun slot => (Single.toLong slot).toUInt64
  | .floatToDouble => stack.widen Single.toDouble
  | .doubleToInt => stack.cut fun bits => (Double.toInt bits).toUInt32
  | .doubleToLong => stack.mapWide fun bits => (Double.toLong bits).toUInt64
  | .doubleToFloat => stack.cut Double.toFloat
  | .intToByte => stack.mapTop fun slot => (Kind.narrow .byte slot.toInt32).toUInt32
  | .intToChar => stack.mapTop fun slot => (Kind.narrow .char slot.toInt32).toUInt32
  | .intToShort => stack.mapTop fun slot => (Kind.narrow .short slot.toInt32).toUInt32

/-- Pushes a local variable that lies at a slot. -/
def load (stack : Stack) (transfer : Transfer) (slot : Nat) : Stack :=
  match transfer with
  | .single => stack.push (stack.raw slot)
  | .double => stack.pushWide (stack.rawWide slot)
  | .reference => stack.pushRef (stack.loadRef slot)

/-- Pops into a local variable that lies at a slot. -/
def store (stack : Stack) (transfer : Transfer) (slot : Nat) : Stack :=
  match transfer with
  | .single =>
    let (value, stack) := stack.pop
    stack.setRaw slot value
  | .double =>
    let (bits, stack) := stack.popWide
    stack.setRawWide slot bits
  | .reference =>
    let (ref, stack) := stack.popRef
    stack.storeRef slot ref

/-- Takes the operands of a condition and decides it. -/
def decideCondition (stack : Stack) (condition : Condition) : Bool × Stack :=
  match condition with
  | .zero relation =>
    let (value, stack) := stack.popInt
    (relation.holds value 0, stack)
  | .compare relation =>
    let (right, stack) := stack.popInt
    let (left, stack) := stack.popInt
    (relation.holds left right, stack)
  | .same expected =>
    let (right, stack) := stack.popRef
    let (left, stack) := stack.popRef
    ((left == right) == expected, stack)
  | .null expected =>
    let (ref, stack) := stack.popRef
    (ref.isNone == expected, stack)

end Stack

end Jvm
