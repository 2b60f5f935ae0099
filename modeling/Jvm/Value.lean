import Jvm.Ref

/-!
# Kinds and values

A *kind* classifies what a field, an array element or a parameter stores; a
*value* is what the host passes to and receives from guest code. Floating-point
values are kept as their bit patterns, so that moving one never changes it.
-/

namespace Jvm

/-- Storage kind, chosen by the first character of a type descriptor. -/
inductive Kind where
  | boolean | byte | char | short | int | float | long | double | reference
  deriving DecidableEq, Inhabited, Repr, Hashable

namespace Kind

/-- The kind that a descriptor character starts. -/
def ofDescriptorChar : Char → Option Kind
  | 'Z' => some .boolean
  | 'B' => some .byte
  | 'C' => some .char
  | 'S' => some .short
  | 'I' => some .int
  | 'F' => some .float
  | 'J' => some .long
  | 'D' => some .double
  | 'L' => some .reference
  | '[' => some .reference
  | _ => none

def descriptorChar : Kind → Char
  | .boolean => 'Z'
  | .byte => 'B'
  | .char => 'C'
  | .short => 'S'
  | .int => 'I'
  | .float => 'F'
  | .long => 'J'
  | .double => 'D'
  | .reference => 'L'

@[simp] theorem ofDescriptorChar_descriptorChar (kind : Kind) :
    ofDescriptorChar kind.descriptorChar = some kind := by
  cases kind <;> rfl

/-- The kind of a whole descriptor. -/
def ofDescriptor (descriptor : String) : Option Kind :=
  descriptor.toList.head?.bind ofDescriptorChar

/-- Slots that a value of this kind takes in a frame or a field block. -/
def slots : Kind → Nat
  | .long | .double => 2
  | _ => 1

/-- Bytes that an array element of this kind is charged for. -/
def size : Kind → Nat
  | .boolean | .byte => 1
  | .char | .short => 2
  | .int | .float | .reference => 4
  | .long | .double => 8

def isReference (kind : Kind) : Bool := kind == .reference

theorem slots_pos (kind : Kind) : 0 < kind.slots := by cases kind <;> decide

def name : Kind → String
  | .boolean => "Boolean"
  | .byte => "Byte"
  | .char => "Char"
  | .short => "Short"
  | .int => "Int"
  | .float => "Float"
  | .long => "Long"
  | .double => "Double"
  | .reference => "Reference"

/-- Narrows an `int` to what a field or element of this kind keeps. -/
def narrow (kind : Kind) (value : Int32) : Int32 :=
  match kind with
  | .boolean => value &&& 1
  | .byte => value.toInt8.toInt32
  | .char => value.toUInt32.toUInt16.toUInt32.toInt32
  | .short => value.toInt16.toInt32
  | _ => value

end Kind

/-- Element type operand of the primitive array instruction. -/
inductive PrimitiveArray where
  | boolean | char | float | double | byte | short | int | long
  deriving DecidableEq, Repr

namespace PrimitiveArray

def ofCode : UInt8 → Option PrimitiveArray
  | 4 => some .boolean
  | 5 => some .char
  | 6 => some .float
  | 7 => some .double
  | 8 => some .byte
  | 9 => some .short
  | 10 => some .int
  | 11 => some .long
  | _ => none

def code : PrimitiveArray → UInt8
  | .boolean => 4
  | .char => 5
  | .float => 6
  | .double => 7
  | .byte => 8
  | .short => 9
  | .int => 10
  | .long => 11

@[simp] theorem ofCode_code (element : PrimitiveArray) : ofCode element.code = some element := by
  cases element <;> rfl

def kind : PrimitiveArray → Kind
  | .boolean => .boolean
  | .char => .char
  | .float => .float
  | .double => .double
  | .byte => .byte
  | .short => .short
  | .int => .int
  | .long => .long

/-- Name of the one-dimensional array class of this element type. -/
def className (element : PrimitiveArray) : String :=
  "[" ++ element.kind.descriptorChar.toString

end PrimitiveArray

/-- A guest value as the host sees it. Kinds narrower than `int` travel as
`int`; `float` and `double` are bit patterns. -/
inductive Value where
  | void
  | int (value : Int32)
  | long (value : Int64)
  | float (bits : UInt32)
  | double (bits : UInt64)
  | ref (value : Option Ref)
  deriving DecidableEq, Inhabited

namespace Value

/-- Slots the value occupies on an execution stack. -/
def slots : Value → Nat
  | .void => 0
  | .long _ | .double _ => 2
  | _ => 1

def int? : Value → Option Int32
  | .int value => some value
  | _ => none

def long? : Value → Option Int64
  | .long value => some value
  | _ => none

def float? : Value → Option UInt32
  | .float bits => some bits
  | _ => none

def double? : Value → Option UInt64
  | .double bits => some bits
  | _ => none

def ref? : Value → Option (Option Ref)
  | .ref value => some value
  | _ => none

/-- Whether a host argument may be passed for a parameter of the kind. -/
def fits (kind : Kind) : Value → Bool
  | .void => false
  | .int _ => kind.slots == 1 && kind != .float && kind != .reference
  | .long _ => kind == .long
  | .float _ => kind == .float
  | .double _ => kind == .double
  | .ref _ => kind == .reference

theorem slots_eq_of_fits {kind : Kind} {value : Value} (fit : value.fits kind = true) :
    value.slots = kind.slots := by
  cases kind <;> cases value <;> simp_all [fits, slots, Kind.slots]

end Value

end Jvm
