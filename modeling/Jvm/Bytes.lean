/-!
# Big-endian numbers

Class files and bytecode write every number high byte first. Numbers are put together
again from the bytes that stand at an offset.
-/

namespace Jvm.Bytes

def ofShort (value : UInt16) : List UInt8 := [(value >>> 8).toUInt8, value.toUInt8]

def ofWord (value : UInt32) : List UInt8 :=
  [(value >>> 24).toUInt8, (value >>> 16).toUInt8, (value >>> 8).toUInt8, value.toUInt8]

def ofLongWord (value : UInt64) : List UInt8 :=
  ofWord (value >>> 32).toUInt32 ++ ofWord value.toUInt32

@[simp] theorem length_ofShort (value : UInt16) : (ofShort value).length = 2 := rfl

@[simp] theorem length_ofWord (value : UInt32) : (ofWord value).length = 4 := rfl

/-- Whether a part of a byte sequence starts at an offset. -/
def At (bytes : Array UInt8) (offset : Nat) (part : List UInt8) : Prop :=
  ∀ index, index < part.length → bytes[offset + index]? = part[index]?

namespace At

variable {bytes : Array UInt8} {offset : Nat} {part first second : List UInt8}

protected theorem nil : At bytes offset [] := nofun

theorem append_iff : At bytes offset (first ++ second) ↔
    At bytes offset first ∧ At bytes (offset + first.length) second := by
  constructor
  · intro both
    constructor
    · intro index inside
      rw [both index (by rw [List.length_append]; omega), List.getElem?_append_left inside]
    · intro index inside
      rw [Nat.add_assoc, both (first.length + index) (by rw [List.length_append]; omega),
        List.getElem?_append_right (by omega), Nat.add_sub_cancel_left]
  · rintro ⟨left, right⟩ index inside
    rw [List.length_append] at inside
    rcases Nat.lt_or_ge index first.length with early | late
    · rw [left index early, List.getElem?_append_left early]
    · rw [List.getElem?_append_right late, ← right (index - first.length) (by omega)]
      congr 1
      omega

theorem left (both : At bytes offset (first ++ second)) : At bytes offset first :=
  (append_iff.mp both).1

theorem right (both : At bytes offset (first ++ second)) :
    At bytes (offset + first.length) second :=
  (append_iff.mp both).2

/-- The bytes between two parts of a sequence start where the first part ends. -/
theorem of_append {before after : List UInt8} (whole : bytes.toList = before ++ part ++ after) :
    At bytes before.length part := by
  intro index inside
  rw [← Array.getElem?_toList, whole, List.append_assoc,
    List.getElem?_append_right (Nat.le_add_right _ _), Nat.add_sub_cancel_left,
    List.getElem?_append_left inside]

theorem getElem? (here : At bytes offset part) (index : Nat) {byte : UInt8}
    (found : part[index]? = some byte) : bytes[offset + index]? = some byte := by
  have inside := (List.getElem?_eq_some_iff.mp found).1
  rw [here index inside, found]

/-- A part that is not empty lies inside. -/
theorem le_size (here : At bytes offset part) (nonempty : part ≠ []) :
    offset + part.length ≤ bytes.size := by
  have positive := List.length_pos_iff.mpr nonempty
  have last := here (part.length - 1) (Nat.sub_one_lt_of_lt positive)
  rw [List.getElem?_eq_getElem (Nat.sub_one_lt_of_lt positive)] at last
  have inside := (Array.getElem?_eq_some_iff.mp last).1
  omega

end At

/-! ## Numbers from their bytes -/

theorem join_ofShort (value : UInt16) :
    ((value >>> 8).toUInt8.toUInt16 <<< 8) ||| value.toUInt8.toUInt16 = value := by
  apply UInt16.toBitVec_inj.mp
  ext index inside
  simp [-UInt16.toUInt16_toUInt8]
  grind

theorem join_ofWord (value : UInt32) :
    ((value >>> 24).toUInt8.toUInt32 <<< 24) ||| ((value >>> 16).toUInt8.toUInt32 <<< 16) |||
      ((value >>> 8).toUInt8.toUInt32 <<< 8) ||| value.toUInt8.toUInt32 = value := by
  apply UInt32.toBitVec_inj.mp
  ext index inside
  simp [-UInt32.toUInt32_toUInt8]
  grind

theorem join_ofLongWord (value : UInt64) :
    ((value >>> 32).toUInt32.toUInt64 <<< 32) ||| value.toUInt32.toUInt64 = value := by
  apply UInt64.toBitVec_inj.mp
  ext index inside
  simp [-UInt64.toUInt64_toUInt32]
  grind

end Jvm.Bytes
