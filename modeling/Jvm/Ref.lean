/-!
# Handles

An object handle, a class id and a method id are the three names that guest
state uses for other guest state. Each of them fits one 32-bit slot of a stack
or of a field block; this module fixes those encodings and states that decoding
undoes encoding wherever the encoding has room.
-/

namespace Jvm

/-- One cell of an operand stack, of a local variable area or of a field block. -/
abbrev Slot := UInt32

/-- A non-null object handle. Its slot value is the arena index plus one, so
that slot value zero is left for the null reference. -/
structure Ref where
  slot : Slot
  slot_ne_zero : slot ≠ 0
  deriving DecidableEq

namespace Ref

/-- The handle of an arena index. Indices beyond the slot range share the first
handle, which keeps the function total. -/
def ofIndex (index : Nat) : Ref :=
  let slot := UInt32.ofNat (index + 1)
  if nonzero : slot ≠ 0 then ⟨slot, nonzero⟩ else ⟨1, by decide⟩

/-- The arena index that a handle names. -/
def index (ref : Ref) : Nat := ref.slot.toNat - 1

/-- The slot value of a possibly null reference. -/
def toSlot : Option Ref → Slot
  | none => 0
  | some ref => ref.slot

/-- The reference that a slot value denotes. -/
def ofSlot (slot : Slot) : Option Ref :=
  if nonzero : slot ≠ 0 then some ⟨slot, nonzero⟩ else none

@[simp] theorem ofSlot_toSlot (ref : Option Ref) : ofSlot (toSlot ref) = ref := by
  cases ref with
  | none => rfl
  | some ref => simp [toSlot, ofSlot, ref.slot_ne_zero]

@[simp] theorem toSlot_ofSlot (slot : Slot) : toSlot (ofSlot slot) = slot := by
  by_cases zero : slot = 0 <;> simp [ofSlot, toSlot, zero]

@[simp] theorem ofSlot_eq_none_iff (slot : Slot) : ofSlot slot = none ↔ slot = 0 := by
  by_cases zero : slot = 0 <;> simp [ofSlot, zero]

instance : Hashable Ref := ⟨fun ref => hash ref.slot⟩

instance : ToString Ref := ⟨fun ref => "@" ++ toString ref.slot.toNat⟩

end Ref

/-- Position of a linked class in its registry. -/
structure ClassId where
  index : Nat
  deriving DecidableEq, Inhabited, Hashable, Repr

/-- A method by its declaring class and its position there. -/
structure MethodId where
  owner : ClassId
  index : UInt16
  deriving DecidableEq, Inhabited, Hashable, Repr

namespace MethodId

/-- The slot a saved frame context holds for a method: class id in the high
half, method index in the low half. -/
def toSlot (method : MethodId) : Slot :=
  (UInt32.ofNat method.owner.index <<< 16) ||| method.index.toUInt32

/-- Reads a saved method back. A slot with the top bit set marks the host. -/
def ofSlot (slot : Slot) : Option MethodId :=
  if slot < 0x80000000 then
    some ⟨⟨(slot >>> 16).toNat⟩, slot.toUInt16⟩
  else
    none

end MethodId

end Jvm
