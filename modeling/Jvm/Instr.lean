import Jvm.Opcode
import Jvm.Value

/-!
# Decoded instructions

Many opcodes differ only in an operand that the opcode itself fixes. Decoding
maps an opcode and the operand bytes behind it to one of a smaller set of
instructions, and gives the pc behind it. Offsets of branches and tables of
switches are not decoded: they are read when control is transferred, so that
the bytes of a branch that is not taken never matter.
-/

namespace Jvm

/-- How a local variable is moved: as one scalar slot, as two, or as a
reference. -/
inductive Transfer where
  | single | double | reference
  deriving DecidableEq, Repr

/-- Integer operations on two operands of one width. -/
inductive IntOp where
  | add | sub | mul | div | rem | and | or | xor
  deriving DecidableEq, Repr

/-- Shifts; the distance is an `int` taken modulo the width. -/
inductive ShiftOp where
  | left | right | rightUnsigned
  deriving DecidableEq, Repr

/-- Floating-point operations on two operands. -/
inductive RealOp where
  | add | sub | mul | div | rem
  deriving DecidableEq, Repr

/-- Conversions between numeric kinds. -/
inductive Conversion where
  | intToLong | intToFloat | intToDouble | longToInt | longToFloat | longToDouble
  | floatToInt | floatToLong | floatToDouble | doubleToInt | doubleToLong | doubleToFloat
  | intToByte | intToChar | intToShort
  deriving DecidableEq, Repr

/-- How a value is compared with another or with zero. -/
inductive Relation where
  | eq | ne | lt | ge | gt | le
  deriving DecidableEq, Repr

namespace Relation

/-- Whether the relation holds between two numbers. -/
def holds (relation : Relation) (left right : Int32) : Bool :=
  match relation with
  | .eq => left == right
  | .ne => left != right
  | .lt => left < right
  | .ge => right ≤ left
  | .gt => right < left
  | .le => left ≤ right

end Relation

/-- When a branch is taken. -/
inductive Condition where
  /-- One `int` against zero. -/
  | zero (relation : Relation)
  /-- Two `int`s. -/
  | compare (relation : Relation)
  /-- Two references being the same, or not. -/
  | same (expected : Bool)
  /-- A reference being null, or not. -/
  | null (expected : Bool)
  deriving DecidableEq, Repr

/-- How the target of a call is selected. -/
inductive CallMode where
  | dispatch | exact | iface
  deriving DecidableEq, Repr

/-- An instruction. -/
inductive Instr where
  | nop
  | push (value : Value)
  | constant (index : UInt16)
  | load (transfer : Transfer) (index : UInt16)
  | store (transfer : Transfer) (index : UInt16)
  | arrayLoad
  | arrayStore (kind : Kind)
  | discard (count : Nat)
  | dup (count skip : Nat)
  | swap
  | intOp (op : IntOp)
  | longOp (op : IntOp)
  | intShift (op : ShiftOp)
  | longShift (op : ShiftOp)
  | floatOp (op : RealOp)
  | doubleOp (op : RealOp)
  | negate (kind : Kind)
  | convert (conversion : Conversion)
  | compareLong
  | compareFloat (nan : Int32)
  | compareDouble (nan : Int32)
  | increment (index : UInt16) (delta : Int32)
  | branch (condition : Condition)
  | jump (far : Bool)
  | jumpSubroutine (far : Bool)
  | returnSubroutine (index : UInt16)
  | tableSwitch
  | lookupSwitch
  /-- Return a value of a kind, or nothing. -/
  | leave (kind : Option Kind)
  | getStatic (index : UInt16)
  | putStatic (index : UInt16)
  | getField (index : UInt16)
  | putField (index : UInt16)
  | invoke (mode : CallMode) (index : UInt16)
  | invokeStatic (index : UInt16)
  | invokeDynamic
  | newObject (index : UInt16)
  | newArray (element : UInt8)
  | newRefArray (index : UInt16)
  | newMultiArray (index : UInt16) (dimensions : UInt8)
  | arrayLength
  | throwRef
  | checkCast (index : UInt16)
  | instanceOf (index : UInt16)
  | enterMonitor
  | exitMonitor
  deriving DecidableEq

/-- Why bytes do not decode. -/
inductive DecodeFault where
  /-- An operand byte lies outside the code. -/
  | outside (pc : UInt32)
  | unknown (byte : UInt8) (pc : UInt32)
  /-- The operation has no wide form. -/
  | notWidenable (opcode : Opcode)
  deriving DecidableEq, Repr

namespace Bytecode

/-- The byte at a pc. -/
def byte (code : Array UInt8) (pc : UInt32) : Except DecodeFault UInt8 :=
  match code[pc.toNat]? with
  | some byte => .ok byte
  | none => .error (.outside pc)

/-- Two bytes from a pc on. Only the first is named when they are not all there. -/
def short (code : Array UInt8) (pc : UInt32) : Except DecodeFault UInt16 :=
  match code[pc.toNat]?, code[pc.toNat + 1]? with
  | some high, some low => .ok ((high.toUInt16 <<< 8) ||| low.toUInt16)
  | _, _ => .error (.outside pc)

/-- Four bytes from a pc on. -/
def word (code : Array UInt8) (pc : UInt32) : Except DecodeFault UInt32 :=
  match code[pc.toNat]?, code[pc.toNat + 1]?, code[pc.toNat + 2]?, code[pc.toNat + 3]? with
  | some a, some b, some c, some d =>
    .ok ((a.toUInt32 <<< 24) ||| (b.toUInt32 <<< 16) ||| (c.toUInt32 <<< 8) ||| d.toUInt32)
  | _, _, _, _ => .error (.outside pc)

/-- A signed offset of two bytes as a distance between pcs. -/
def nearOffset (code : Array UInt8) (pc : UInt32) : Except DecodeFault UInt32 :=
  (short code pc).map fun offset => offset.toInt16.toInt32.toUInt32

/-- A signed offset of four bytes as a distance between pcs. -/
def farOffset (code : Array UInt8) (pc : UInt32) : Except DecodeFault UInt32 := word code pc

/-- Where the aligned operands of a switch at a pc start. -/
def switchBase (pc : UInt32) : UInt32 := (pc + 4) &&& 0xFFFFFFFC

/-- Offset that a table switch selects for a key. -/
def tableOffset (code : Array UInt8) (pc : UInt32) (key : Int32) : Except DecodeFault UInt32 := do
  let base := switchBase pc
  let fallback ← word code base
  let low ← word code (base + 4)
  let high ← word code (base + 8)
  if key < low.toInt32 ∨ high.toInt32 < key then pure fallback
  else word code (base + 12 + (key.toUInt32 - low) * 4)

/-- The offset of the first pair with the key, among `count` pairs from `index`
on. -/
def findPair (code : Array UInt8) (base : UInt32) (key : Int32) (fallback : UInt32) :
    Nat → UInt32 → Except DecodeFault UInt32
  | 0, _ => pure fallback
  | count + 1, index => do
    let entry := base + 8 + index * 8
    let candidate ← word code entry
    if candidate.toInt32 = key then word code (entry + 4)
    else findPair code base key fallback count (index + 1)

/-- Offset that a lookup switch selects for a key. A negative pair count counts
as none. -/
def lookupOffset (code : Array UInt8) (pc : UInt32) (key : Int32) : Except DecodeFault UInt32 := do
  let base := switchBase pc
  let fallback ← word code base
  let count ← word code (base + 4)
  findPair code base key fallback count.toInt32.toNatClampNeg 0

end Bytecode

namespace Instr

open Bytecode

/-- An instruction with a one-byte operand. -/
def withByte (code : Array UInt8) (pc : UInt32) (make : UInt8 → Instr) :
    Except DecodeFault (Instr × UInt32) := do
  let operand ← byte code (pc + 1)
  pure (make operand, pc + 2)

/-- An instruction with a two-byte operand. -/
def withShort (code : Array UInt8) (pc : UInt32) (make : UInt16 → Instr) :
    Except DecodeFault (Instr × UInt32) := do
  let operand ← short code (pc + 1)
  pure (make operand, pc + 3)

/-- A call through an interface carries two more bytes, which say nothing new. -/
def interfaceCall (code : Array UInt8) (pc : UInt32) : Except DecodeFault (Instr × UInt32) := do
  let operand ← short code (pc + 1)
  pure (.invoke .iface operand, pc + 5)

/-- An array of several dimensions: class index and dimension count. -/
def multiArray (code : Array UInt8) (pc : UInt32) : Except DecodeFault (Instr × UInt32) := do
  let index ← short code (pc + 1)
  let dimensions ← byte code (pc + 3)
  pure (.newMultiArray index dimensions, pc + 4)

/-- An increment of a local: index and signed delta. -/
def increments (code : Array UInt8) (pc : UInt32) : Except DecodeFault (Instr × UInt32) := do
  let index ← byte code (pc + 1)
  let delta ← byte code (pc + 2)
  pure (.increment index.toUInt16 delta.toInt8.toInt32, pc + 3)

/-- The operation behind a widening byte, with a two-byte local index. -/
def widened (code : Array UInt8) (pc : UInt32) : Except DecodeFault (Instr × UInt32) := do
  let operation ← byte code (pc + 1)
  let index ← short code (pc + 2)
  match Opcode.ofByte operation with
  | none => throw (.unknown operation (pc + 1))
  | some .iLoad | some .fLoad => pure (.load .single index, pc + 4)
  | some .lLoad | some .dLoad => pure (.load .double index, pc + 4)
  | some .aLoad => pure (.load .reference index, pc + 4)
  | some .iStore | some .fStore => pure (.store .single index, pc + 4)
  | some .lStore | some .dStore => pure (.store .double index, pc + 4)
  | some .aStore => pure (.store .reference index, pc + 4)
  | some .ret => pure (.returnSubroutine index, pc + 4)
  | some .iInc => do
    let delta ← short code (pc + 4)
    pure (.increment index delta.toInt16.toInt32, pc + 6)
  | some other => throw (.notWidenable other)

/-- Decodes the instruction of `opcode` at a pc. The second component is the pc
behind it. -/
def decode (code : Array UInt8) (pc : UInt32) (opcode : Opcode) :
    Except DecodeFault (Instr × UInt32) :=
  let plain (instr : Instr) : Except DecodeFault (Instr × UInt32) := .ok (instr, pc + 1)
  let near (instr : Instr) : Except DecodeFault (Instr × UInt32) := .ok (instr, pc + 3)
  match opcode with
  | .nop => plain .nop
  | .aConstNull => plain (.push (.ref none))
  | .iConstM1 => plain (.push (.int (-1)))
  | .iConst0 => plain (.push (.int 0))
  | .iConst1 => plain (.push (.int 1))
  | .iConst2 => plain (.push (.int 2))
  | .iConst3 => plain (.push (.int 3))
  | .iConst4 => plain (.push (.int 4))
  | .iConst5 => plain (.push (.int 5))
  | .lConst0 => plain (.push (.long 0))
  | .lConst1 => plain (.push (.long 1))
  | .fConst0 => plain (.push (.float 0))
  | .fConst1 => plain (.push (.float 0x3F800000))
  | .fConst2 => plain (.push (.float 0x40000000))
  | .dConst0 => plain (.push (.double 0))
  | .dConst1 => plain (.push (.double 0x3FF0000000000000))
  | .biPush => withByte code pc fun operand => .push (.int operand.toInt8.toInt32)
  | .siPush => withShort code pc fun operand => .push (.int operand.toInt16.toInt32)
  | .ldc => withByte code pc fun operand => .constant operand.toUInt16
  | .ldcW | .ldc2W => withShort code pc .constant
  | .iLoad | .fLoad => withByte code pc fun index => .load .single index.toUInt16
  | .lLoad | .dLoad => withByte code pc fun index => .load .double index.toUInt16
  | .aLoad => withByte code pc fun index => .load .reference index.toUInt16
  | .iLoad0 | .fLoad0 => plain (.load .single 0)
  | .iLoad1 | .fLoad1 => plain (.load .single 1)
  | .iLoad2 | .fLoad2 => plain (.load .single 2)
  | .iLoad3 | .fLoad3 => plain (.load .single 3)
  | .lLoad0 | .dLoad0 => plain (.load .double 0)
  | .lLoad1 | .dLoad1 => plain (.load .double 1)
  | .lLoad2 | .dLoad2 => plain (.load .double 2)
  | .lLoad3 | .dLoad3 => plain (.load .double 3)
  | .aLoad0 => plain (.load .reference 0)
  | .aLoad1 => plain (.load .reference 1)
  | .aLoad2 => plain (.load .reference 2)
  | .aLoad3 => plain (.load .reference 3)
  | .iaLoad | .laLoad | .faLoad | .daLoad | .aaLoad | .baLoad | .caLoad | .saLoad =>
    plain .arrayLoad
  | .iStore | .fStore => withByte code pc fun index => .store .single index.toUInt16
  | .lStore | .dStore => withByte code pc fun index => .store .double index.toUInt16
  | .aStore => withByte code pc fun index => .store .reference index.toUInt16
  | .iStore0 | .fStore0 => plain (.store .single 0)
  | .iStore1 | .fStore1 => plain (.store .single 1)
  | .iStore2 | .fStore2 => plain (.store .single 2)
  | .iStore3 | .fStore3 => plain (.store .single 3)
  | .lStore0 | .dStore0 => plain (.store .double 0)
  | .lStore1 | .dStore1 => plain (.store .double 1)
  | .lStore2 | .dStore2 => plain (.store .double 2)
  | .lStore3 | .dStore3 => plain (.store .double 3)
  | .aStore0 => plain (.store .reference 0)
  | .aStore1 => plain (.store .reference 1)
  | .aStore2 => plain (.store .reference 2)
  | .aStore3 => plain (.store .reference 3)
  | .iaStore => plain (.arrayStore .int)
  | .laStore => plain (.arrayStore .long)
  | .faStore => plain (.arrayStore .float)
  | .daStore => plain (.arrayStore .double)
  | .aaStore => plain (.arrayStore .reference)
  | .baStore => plain (.arrayStore .byte)
  | .caStore => plain (.arrayStore .char)
  | .saStore => plain (.arrayStore .short)
  | .pop => plain (.discard 1)
  | .pop2 => plain (.discard 2)
  | .dup => plain (.dup 1 0)
  | .dupX1 => plain (.dup 1 1)
  | .dupX2 => plain (.dup 1 2)
  | .dup2 => plain (.dup 2 0)
  | .dup2X1 => plain (.dup 2 1)
  | .dup2X2 => plain (.dup 2 2)
  | .swap => plain .swap
  | .iAdd => plain (.intOp .add)
  | .lAdd => plain (.longOp .add)
  | .fAdd => plain (.floatOp .add)
  | .dAdd => plain (.doubleOp .add)
  | .iSub => plain (.intOp .sub)
  | .lSub => plain (.longOp .sub)
  | .fSub => plain (.floatOp .sub)
  | .dSub => plain (.doubleOp .sub)
  | .iMul => plain (.intOp .mul)
  | .lMul => plain (.longOp .mul)
  | .fMul => plain (.floatOp .mul)
  | .dMul => plain (.doubleOp .mul)
  | .iDiv => plain (.intOp .div)
  | .lDiv => plain (.longOp .div)
  | .fDiv => plain (.floatOp .div)
  | .dDiv => plain (.doubleOp .div)
  | .iRem => plain (.intOp .rem)
  | .lRem => plain (.longOp .rem)
  | .fRem => plain (.floatOp .rem)
  | .dRem => plain (.doubleOp .rem)
  | .iNeg => plain (.negate .int)
  | .lNeg => plain (.negate .long)
  | .fNeg => plain (.negate .float)
  | .dNeg => plain (.negate .double)
  | .iShl => plain (.intShift .left)
  | .lShl => plain (.longShift .left)
  | .iShr => plain (.intShift .right)
  | .lShr => plain (.longShift .right)
  | .iuShr => plain (.intShift .rightUnsigned)
  | .luShr => plain (.longShift .rightUnsigned)
  | .iAnd => plain (.intOp .and)
  | .lAnd => plain (.longOp .and)
  | .iOr => plain (.intOp .or)
  | .lOr => plain (.longOp .or)
  | .iXor => plain (.intOp .xor)
  | .lXor => plain (.longOp .xor)
  | .iInc => increments code pc
  | .i2L => plain (.convert .intToLong)
  | .i2F => plain (.convert .intToFloat)
  | .i2D => plain (.convert .intToDouble)
  | .l2I => plain (.convert .longToInt)
  | .l2F => plain (.convert .longToFloat)
  | .l2D => plain (.convert .longToDouble)
  | .f2I => plain (.convert .floatToInt)
  | .f2L => plain (.convert .floatToLong)
  | .f2D => plain (.convert .floatToDouble)
  | .d2I => plain (.convert .doubleToInt)
  | .d2L => plain (.convert .doubleToLong)
  | .d2F => plain (.convert .doubleToFloat)
  | .i2B => plain (.convert .intToByte)
  | .i2C => plain (.convert .intToChar)
  | .i2S => plain (.convert .intToShort)
  | .lCmp => plain .compareLong
  | .fCmpL => plain (.compareFloat (-1))
  | .fCmpG => plain (.compareFloat 1)
  | .dCmpL => plain (.compareDouble (-1))
  | .dCmpG => plain (.compareDouble 1)
  | .ifEq => near (.branch (.zero .eq))
  | .ifNe => near (.branch (.zero .ne))
  | .ifLt => near (.branch (.zero .lt))
  | .ifGe => near (.branch (.zero .ge))
  | .ifGt => near (.branch (.zero .gt))
  | .ifLe => near (.branch (.zero .le))
  | .ifICmpEq => near (.branch (.compare .eq))
  | .ifICmpNe => near (.branch (.compare .ne))
  | .ifICmpLt => near (.branch (.compare .lt))
  | .ifICmpGe => near (.branch (.compare .ge))
  | .ifICmpGt => near (.branch (.compare .gt))
  | .ifICmpLe => near (.branch (.compare .le))
  | .ifACmpEq => near (.branch (.same true))
  | .ifACmpNe => near (.branch (.same false))
  | .ifNull => near (.branch (.null true))
  | .ifNonNull => near (.branch (.null false))
  | .gotoNear => near (.jump false)
  | .gotoFar => .ok (.jump true, pc + 5)
  | .jsrNear => near (.jumpSubroutine false)
  | .jsrFar => .ok (.jumpSubroutine true, pc + 5)
  | .ret => withByte code pc fun index => .returnSubroutine index.toUInt16
  | .tableSwitch => plain .tableSwitch
  | .lookupSwitch => plain .lookupSwitch
  | .iReturn => plain (.leave (some .int))
  | .lReturn => plain (.leave (some .long))
  | .fReturn => plain (.leave (some .float))
  | .dReturn => plain (.leave (some .double))
  | .aReturn => plain (.leave (some .reference))
  | .returnVoid => plain (.leave none)
  | .getStatic => withShort code pc .getStatic
  | .putStatic => withShort code pc .putStatic
  | .getField => withShort code pc .getField
  | .putField => withShort code pc .putField
  | .invokeVirtual => withShort code pc (.invoke .dispatch)
  | .invokeSpecial => withShort code pc (.invoke .exact)
  | .invokeStatic => withShort code pc .invokeStatic
  | .invokeInterface => interfaceCall code pc
  | .invokeDynamic => .ok (.invokeDynamic, pc + 5)
  | .newObject => withShort code pc .newObject
  | .newArray => withByte code pc .newArray
  | .aNewArray => withShort code pc .newRefArray
  | .multiANewArray => multiArray code pc
  | .arrayLength => plain .arrayLength
  | .aThrow => plain .throwRef
  | .checkCast => withShort code pc .checkCast
  | .instanceOf => withShort code pc .instanceOf
  | .monitorEnter => plain .enterMonitor
  | .monitorExit => plain .exitMonitor
  | .wide => widened code pc
  | .breakpoint | .impDep1 | .impDep2 => .error (.unknown opcode.byte pc)

end Instr

end Jvm
