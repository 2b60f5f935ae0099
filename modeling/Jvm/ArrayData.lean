import Jvm.Value

/-!
# Array contents

An array keeps its elements in the storage of their kind; arrays of `boolean`
share the storage of `byte`. Elements are read as values widened to `int` where
they are narrower.
-/

namespace Jvm

/-- Elements of an array. -/
inductive ArrayData where
  | bytes (elements : Array Int8)
  | chars (elements : Array UInt16)
  | shorts (elements : Array Int16)
  | ints (elements : Array Int32)
  | longs (elements : Array Int64)
  | floats (elements : Array UInt32)
  | doubles (elements : Array UInt64)
  | refs (elements : Array (Option Ref))
  deriving DecidableEq

namespace ArrayData

instance : Inhabited ArrayData := ⟨.bytes #[]⟩

/-- An array of zeros. -/
def ofSize (kind : Kind) (size : Nat) : ArrayData :=
  match kind with
  | .boolean | .byte => .bytes (Array.replicate size 0)
  | .char => .chars (Array.replicate size 0)
  | .short => .shorts (Array.replicate size 0)
  | .int => .ints (Array.replicate size 0)
  | .long => .longs (Array.replicate size 0)
  | .float => .floats (Array.replicate size 0)
  | .double => .doubles (Array.replicate size 0)
  | .reference => .refs (Array.replicate size none)

/-- Number of elements. -/
def size : ArrayData → Nat
  | .bytes elements => elements.size
  | .chars elements => elements.size
  | .shorts elements => elements.size
  | .ints elements => elements.size
  | .longs elements => elements.size
  | .floats elements => elements.size
  | .doubles elements => elements.size
  | .refs elements => elements.size

/-- Bytes charged for one element. -/
def elementSize : ArrayData → Nat
  | .bytes _ => 1
  | .chars _ | .shorts _ => 2
  | .ints _ | .floats _ | .refs _ => 4
  | .longs _ | .doubles _ => 8

/-- Bytes charged for all elements. -/
def byteSize (data : ArrayData) : Nat := data.size * data.elementSize

/-- One element as a value. -/
def get? (data : ArrayData) (index : Nat) : Option Value :=
  match data with
  | .bytes elements => elements[index]?.map (.int ·.toInt32)
  | .chars elements => elements[index]?.map (.int ·.toUInt32.toInt32)
  | .shorts elements => elements[index]?.map (.int ·.toInt32)
  | .ints elements => elements[index]?.map .int
  | .longs elements => elements[index]?.map .long
  | .floats elements => elements[index]?.map .float
  | .doubles elements => elements[index]?.map .double
  | .refs elements => elements[index]?.map .ref

/-- Whether the storage holds values of this sort. -/
def accepts : ArrayData → Value → Bool
  | .bytes _, .int _ | .chars _, .int _ | .shorts _, .int _ | .ints _, .int _ => true
  | .longs _, .long _ | .floats _, .float _ | .doubles _, .double _ | .refs _, .ref _ => true
  | _, _ => false

/-- Stores a value at an index inside the array, cut to the storage. A value that
the storage does not hold changes nothing. -/
def set (data : ArrayData) (index : Nat) (value : Value) : ArrayData :=
  match data, value with
  | .bytes elements, .int value => .bytes (elements.setIfInBounds index value.toInt8)
  | .chars elements, .int value => .chars (elements.setIfInBounds index value.toUInt32.toUInt16)
  | .shorts elements, .int value => .shorts (elements.setIfInBounds index value.toInt16)
  | .ints elements, .int value => .ints (elements.setIfInBounds index value)
  | .longs elements, .long value => .longs (elements.setIfInBounds index value)
  | .floats elements, .float bits => .floats (elements.setIfInBounds index bits)
  | .doubles elements, .double bits => .doubles (elements.setIfInBounds index bits)
  | .refs elements, .ref ref => .refs (elements.setIfInBounds index ref)
  | data, _ => data

/-- Writes elements from an index on. -/
def splice {α : Type} (target : Array α) (start : Nat) : List α → Array α
  | [] => target
  | element :: rest => splice (target.setIfInBounds start element) (start + 1) rest

/-- `target` with the elements `[start, start + count)` of `source` at `place`.
The source is read before anything is written. -/
def transfer {α : Type} (target : Array α) (place : Nat) (source : Array α)
    (start count : Nat) : Array α :=
  splice target place (source.extract start (start + count)).toList

/-- Copies elements of another array of the same storage. -/
def copyFrom? (target : ArrayData) (place : Nat) (source : ArrayData) (start count : Nat) :
    Option ArrayData :=
  match target, source with
  | .bytes target, .bytes source => some (.bytes (transfer target place source start count))
  | .chars target, .chars source => some (.chars (transfer target place source start count))
  | .shorts target, .shorts source => some (.shorts (transfer target place source start count))
  | .ints target, .ints source => some (.ints (transfer target place source start count))
  | .longs target, .longs source => some (.longs (transfer target place source start count))
  | .floats target, .floats source => some (.floats (transfer target place source start count))
  | .doubles target, .doubles source =>
    some (.doubles (transfer target place source start count))
  | .refs target, .refs source => some (.refs (transfer target place source start count))
  | _, _ => none

/-- Copies elements inside one array; source and target may overlap. -/
def copyWithin (data : ArrayData) (start place count : Nat) : ArrayData :=
  match data with
  | .bytes elements => .bytes (transfer elements place elements start count)
  | .chars elements => .chars (transfer elements place elements start count)
  | .shorts elements => .shorts (transfer elements place elements start count)
  | .ints elements => .ints (transfer elements place elements start count)
  | .longs elements => .longs (transfer elements place elements start count)
  | .floats elements => .floats (transfer elements place elements start count)
  | .doubles elements => .doubles (transfer elements place elements start count)
  | .refs elements => .refs (transfer elements place elements start count)

/-- The references among the elements. -/
def references : ArrayData → List Ref
  | .refs elements => elements.toList.filterMap id
  | _ => []

end ArrayData

end Jvm
