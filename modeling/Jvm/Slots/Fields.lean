import Jvm.Slots.Stack

/-!
# Field blocks

The fields of an instance, and the static fields of a class, share a block of
slots. Each field has a slot of its own, or two for a wide one, low half first.
Reads outside a block give zero and writes outside it are lost. A value that is
written to a field is read back from it, and from no field whose slots are apart.
-/

namespace Jvm

/-- A block of field slots. -/
structure Fields where
  slots : Array Slot
  deriving DecidableEq, Inhabited, Repr

namespace Fields

/-- A block of zeros. -/
def ofSize (size : Nat) : Fields := ⟨Array.replicate size 0⟩

def size (fields : Fields) : Nat := fields.slots.size

def get (fields : Fields) (slot : Nat) : Slot := fields.slots.getD slot 0

def set (fields : Fields) (slot : Nat) (value : Slot) : Fields :=
  ⟨fields.slots.setIfInBounds slot value⟩

def getWide (fields : Fields) (slot : Nat) : UInt64 :=
  Slots.wide (fields.get slot) (fields.get (slot + 1))

def setWide (fields : Fields) (slot : Nat) (bits : UInt64) : Fields :=
  (fields.set slot (Slots.low bits)).set (slot + 1) (Slots.high bits)

def getInt (fields : Fields) (slot : Nat) : Int32 := (fields.get slot).toInt32

def setInt (fields : Fields) (slot : Nat) (value : Int32) : Fields :=
  fields.set slot value.toUInt32

def getRef (fields : Fields) (slot : Nat) : Option Ref := Ref.ofSlot (fields.get slot)

def setRef (fields : Fields) (slot : Nat) (ref : Option Ref) : Fields :=
  fields.set slot (Ref.toSlot ref)

/-- Reads a field of a kind. -/
def read (fields : Fields) (slot : Nat) : Kind → Value
  | .long => .long (fields.getWide slot).toInt64
  | .double => .double (fields.getWide slot)
  | .float => .float (fields.get slot)
  | .reference => .ref (fields.getRef slot)
  | _ => .int (fields.getInt slot)

/-- Writes a value to a field; `void` writes nothing. -/
def write (fields : Fields) (slot : Nat) : Value → Fields
  | .void => fields
  | .int value => fields.setInt slot value
  | .long value => fields.setWide slot value.toUInt64
  | .float bits => fields.set slot bits
  | .double bits => fields.setWide slot bits
  | .ref ref => fields.setRef slot ref

@[simp] theorem size_ofSize (size : Nat) : (ofSize size).size = size := by
  simp [ofSize, Fields.size]

@[simp] theorem size_set (fields : Fields) (slot : Nat) (value : Slot) :
    (fields.set slot value).size = fields.size := by
  simp [set, size]

@[simp] theorem size_write (fields : Fields) (slot : Nat) (value : Value) :
    (fields.write slot value).size = fields.size := by
  cases value <;> simp [write, setInt, setWide, setRef]

variable {fields : Fields} {slot other : Nat}

theorem get_set (inside : slot < fields.size) (value : Slot) :
    (fields.set slot value).get slot = value := by
  rw [size] at inside
  simp [get, set, inside]

theorem get_set_of_ne (apart : slot ≠ other) (value : Slot) :
    (fields.set slot value).get other = fields.get other := by
  simp [get, set, Array.getElem?_setIfInBounds_ne apart]

theorem get_ofSize (size slot : Nat) : (ofSize size).get slot = 0 := by
  simp only [get, ofSize, Array.getD_eq_getD_getElem?, Array.getElem?_replicate]
  split <;> rfl

theorem getWide_setWide (inside : slot + 1 < fields.size) (bits : UInt64) :
    (fields.setWide slot bits).getWide slot = bits := by
  have first : slot < fields.size := Nat.lt_of_succ_lt inside
  rw [getWide, setWide, get_set_of_ne (Nat.succ_ne_self slot), get_set first,
    get_set (by rwa [size_set]), Slots.wide_low_high]

/-- What is written to a field is read back. -/
theorem read_write {kind : Kind} {value : Value} (fit : value.fits kind = true)
    (inside : slot + kind.slots ≤ fields.size) :
    (fields.write slot value).read slot kind = value := by
  have first : slot < fields.size := Nat.lt_of_lt_of_le (Nat.lt_add_of_pos_right kind.slots_pos) inside
  cases value with
  | void => cases fit
  | int value => cases kind <;> cases fit <;> simp [write, read, setInt, getInt, get_set first]
  | long value => cases kind <;> cases fit; simp [write, read, getWide_setWide inside]
  | float bits => cases kind <;> cases fit; simp [write, read, get_set first]
  | double bits => cases kind <;> cases fit; simp [write, read, getWide_setWide inside]
  | ref ref => cases kind <;> cases fit; simp [write, read, setRef, getRef, get_set first]

/-- A value is written to its own slots only. -/
theorem get_write_of_outside {value : Value} (outside : other < slot ∨ slot + value.slots ≤ other) :
    (fields.write slot value).get other = fields.get other := by
  have wide (bits : UInt64) (outside : other < slot ∨ slot + 2 ≤ other) :
      (fields.setWide slot bits).get other = fields.get other := by
    rw [setWide, get_set_of_ne (by omega), get_set_of_ne (by omega)]
  cases value with
  | void => rfl
  | long value => exact wide _ outside
  | double bits => exact wide _ outside
  | int | float | ref =>
      simp only [Value.slots] at outside
      exact get_set_of_ne (by omega) _

/-- A field whose slots are apart is left alone. -/
theorem read_write_of_apart {kind : Kind} {value : Value}
    (apart : other + kind.slots ≤ slot ∨ slot + value.slots ≤ other) :
    (fields.write slot value).read other kind = fields.read other kind := by
  have low : (fields.write slot value).get other = fields.get other := by
    have positive := kind.slots_pos
    exact get_write_of_outside (by omega)
  have wide (two : kind.slots = 2) :
      (fields.write slot value).getWide other = fields.getWide other := by
    rw [getWide, getWide, low, get_write_of_outside (by omega)]
  cases kind with
  | long => rw [read, read, wide rfl]
  | double => rw [read, read, wide rfl]
  | float => rw [read, read, low]
  | reference => rw [read, read, getRef, getRef, low]
  | boolean | byte | char | short | int => exact congrArg Value.int (congrArg UInt32.toInt32 low)

end Fields

end Jvm
