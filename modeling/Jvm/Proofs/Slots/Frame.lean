import Jvm.Machine.Frames
import Jvm.Proofs.Slots.Cells

/-!
# Saved contexts

What a call saves is read back as it was, provided that it has room in its
slots: the class id of the caller in fifteen bits, and the start of its frame in
thirty-one. The frame that a call enters has the arguments as its first locals,
zeros as the others, and leaves everything below the arguments as it is.
-/

namespace Jvm

namespace MethodId

/-- The class ids that a saved method has room for. -/
def encodableClasses : Nat := 0x8000

/-- Whether a method is read back from its slot. -/
def Encodable (id : MethodId) : Prop := ofSlot id.toSlot = some id

theorem toNat_toSlot (id : MethodId) :
    id.toSlot.toNat = id.owner.index % 65536 * 65536 + id.index.toNat := by
  have low : id.index.toNat < 2 ^ 16 := id.index.toNat_lt
  have high : (UInt32.ofNat id.owner.index <<< 16).toNat = (id.owner.index % 65536) <<< 16 := by
    have shift : UInt32.toNat 16 % 32 = 16 := rfl
    rw [UInt32.toNat_shiftLeft, UInt32.toNat_ofNat', shift, Nat.shiftLeft_eq, Nat.shiftLeft_eq]
    omega
  rw [toSlot, UInt32.toNat_or, high, UInt16.toNat_toUInt32, ← Nat.shiftLeft_add_eq_or_of_lt low,
    Nat.shiftLeft_eq]

/-- The slot has room for sixteen bits of the class id. The highest of them is the sign that
marks the host, and those beyond are lost. -/
theorem ofSlot_toSlot (id : MethodId) :
    ofSlot id.toSlot =
      if id.owner.index % 65536 < encodableClasses then
        some ⟨⟨id.owner.index % 65536⟩, id.index⟩
      else none := by
  have low : id.index.toNat < 65536 := id.index.toNat_lt
  have limit : UInt32.toNat 0x80000000 = 2147483648 := rfl
  have shift : UInt32.toNat 16 % 32 = 16 := rfl
  have host : id.toSlot < 0x80000000 ↔ id.owner.index % 65536 < encodableClasses := by
    rw [UInt32.lt_iff_toNat_lt, toNat_toSlot, limit, encodableClasses]
    omega
  have owner : (id.toSlot >>> 16).toNat = id.owner.index % 65536 := by
    rw [UInt32.toNat_shiftRight, toNat_toSlot, shift, Nat.shiftRight_eq_div_pow]
    omega
  have index : id.toSlot.toUInt16 = id.index := by
    apply UInt16.toNat_inj.mp
    rw [UInt32.toNat_toUInt16, toNat_toSlot]
    omega
  simp only [ofSlot, host, owner, index]

theorem encodable_of_lt {id : MethodId} (fits : id.owner.index < encodableClasses) :
    id.Encodable := by
  have small : id.owner.index < 32768 := fits
  have whole : id.owner.index % 65536 = id.owner.index := Nat.mod_eq_of_lt (by omega)
  rw [Encodable, ofSlot_toSlot, whole, if_pos fits]

theorem lt_of_encodable {id : MethodId} (encodable : id.Encodable) :
    id.owner.index < encodableClasses := by
  rw [Encodable, ofSlot_toSlot, Option.ite_none_right_eq_some] at encodable
  obtain ⟨small, same⟩ := encodable
  have owner := congrArg (fun id : MethodId => id.owner.index) (Option.some.inj same)
  rw [← owner]
  exact small

end MethodId

namespace FrameContext

/-- The positions that a saved frame start has room for. -/
def encodablePositions : Nat := 0x80000000

theorem position_ofNat {start : Nat} (fits : start < encodablePositions) :
    position (UInt32.ofNat start) = start := by
  have small : start < 2147483648 := fits
  have value : (UInt32.ofNat start).toNat = start := by
    rw [UInt32.toNat_ofNat', Nat.mod_eq_of_lt (by omega)]
  have low : UInt32.ofNat start < 0x80000000 := by
    rw [UInt32.lt_iff_toNat_lt, value]
    exact small
  rw [position, if_pos low, value]

/-- What is read back of a saved context. -/
def decoded (context : FrameContext) : FrameContext :=
  { context with
    caller := MethodId.ofSlot (context.caller.elim hostSlot MethodId.toSlot)
    callerStartSp := position (UInt32.ofNat context.callerStartSp) }

/-- Whether a context has room in its slots. -/
def Encodable (context : FrameContext) : Prop :=
  (∀ id, context.caller = some id → id.Encodable) ∧
    context.callerStartSp < encodablePositions

theorem ofSlot_hostSlot : MethodId.ofSlot hostSlot = none := by decide

theorem decoded_caller_of_host {context : FrameContext} (host : context.caller = none) :
    context.decoded.caller = none := by
  simp only [decoded, host, Option.elim_none, ofSlot_hostSlot]

theorem decoded_caller {context : FrameContext}
    (encodable : ∀ id, context.caller = some id → id.Encodable) :
    context.decoded.caller = context.caller := by
  cases called : context.caller with
  | none => exact decoded_caller_of_host called
  | some id =>
      simp only [decoded, called, Option.elim_some]
      exact encodable id called

theorem Encodable.decoded_eq {context : FrameContext} (encodable : context.Encodable) :
    context.decoded = context := by
  have caller := decoded_caller encodable.1
  cases context
  simp only [decoded, FrameContext.mk.injEq, true_and] at caller ⊢
  exact ⟨caller, position_ofNat encodable.2⟩

section

variable (context : FrameContext) (stack : Stack) (base index : Nat)

@[simp] theorem sp_write : (context.write stack base).sp = stack.sp := by
  simp only [write, Stack.sp_setRaw]

@[simp] theorem limit_write : (context.write stack base).limit = stack.limit := by
  simp only [write, Stack.limit_setRaw]

/-- A saved context takes four cells and leaves the others alone. -/
theorem cell_write_of_outside (outside : index < base ∨ base + size ≤ index) :
    (context.write stack base).cell index = stack.cell index := by
  have bounds : index < base ∨ base + 4 ≤ index := outside
  simp only [write, Stack.cell_setRaw]
  rw [if_neg (by omega), if_neg (by omega), if_neg (by omega), if_neg (by omega)]

theorem slot_add_three (place : Nat) : slot stack (base + 3) place = stack.raw (base + place) := by
  have position : base + 3 + place - 3 = base + place := by omega
  rw [slot, if_pos (by omega), position]

/-- A context is read from its four cells alone. -/
theorem read_congr {left right : Stack} (base : Nat)
    (same : ∀ index, base ≤ index → index < base + size → left.raw index = right.raw index) :
    read left (base + 3) = read right (base + 3) := by
  have slots : ∀ place < 4, slot left (base + 3) place = slot right (base + 3) place := by
    intro place inside
    rw [slot_add_three, slot_add_three]
    exact same _ (Nat.le_add_right base place) (Nat.add_lt_add_left inside base)
  simp only [read, FrameContext.mk.injEq]
  rw [slots 0 (by decide), slots 1 (by decide), slots 2 (by decide), slots 3 (by decide)]
  exact ⟨rfl, rfl, rfl, rfl⟩

theorem raw_write :
    (context.write stack base).raw base = context.caller.elim hostSlot MethodId.toSlot ∧
      (context.write stack base).raw (base + 1) = context.callerPc ∧
      (context.write stack base).raw (base + 2) = context.returnPc ∧
      (context.write stack base).raw (base + 3) = UInt32.ofNat context.callerStartSp := by
  simp only [← Stack.fst_cell, write, Stack.cell_setRaw]
  simp

theorem read_write : read (context.write stack base) (base + 3) = context.decoded := by
  obtain ⟨caller, callerPc, returnPc, start⟩ := context.raw_write stack base
  simp only [read, slot_add_three, Nat.add_zero, caller, callerPc, returnPc, start, decoded]

/-- A context whose frame start has room is read back if and only if its caller is the host, or
a method of one of the classes that have room. -/
theorem read_write_eq_iff (fits : context.callerStartSp < encodablePositions) :
    read (context.write stack base) (base + 3) = context ↔
      ∀ id, context.caller = some id → id.owner.index < MethodId.encodableClasses := by
  rw [read_write]
  constructor
  · intro same id called
    have caller := congrArg FrameContext.caller same
    simp only [decoded, called, Option.elim_some] at caller
    exact MethodId.lt_of_encodable caller
  · intro small
    exact Encodable.decoded_eq ⟨fun id called => MethodId.encodable_of_lt (small id called), fits⟩

/-- A caller whose class id has its sixteenth bit is read back as the host. -/
theorem caller_read_write_of_le {id : MethodId} (called : context.caller = some id)
    (large : MethodId.encodableClasses ≤ id.owner.index % 65536) :
    (read (context.write stack base) (base + 3)).caller = none := by
  rw [read_write]
  simp only [decoded, called, Option.elim_some]
  rw [MethodId.ofSlot_toSlot, if_neg (Nat.not_lt_of_le large)]

end

end FrameContext

namespace Stack

section

variable (stack : Stack) (context : FrameContext) (arguments locals index : Nat)

@[simp] theorem sp_enterFrame :
    (stack.enterFrame context arguments locals).sp =
      stack.sp - arguments + FrameContext.size + locals :=
  sp_setSp _ _

@[simp] theorem limit_enterFrame :
    (stack.enterFrame context arguments locals).limit = stack.limit := by
  simp only [enterFrame, limit_setSp, limit_zero, FrameContext.limit_write, limit_shiftUp]

variable (claimed : arguments ≤ stack.sp) (covered : arguments ≤ locals)

include claimed covered

theorem cell_enterFrame :
    (stack.enterFrame context arguments locals).cell index =
      ((context.write (stack.shiftUp (stack.sp - arguments) arguments FrameContext.size)
          (stack.sp - arguments)).zero (stack.sp - arguments + FrameContext.size + arguments)
            (stack.sp - arguments + FrameContext.size + locals)).cell index := by
  apply cell_setSp_of_le
  simp only [sp_zero, FrameContext.sp_write, sp_shiftUp]
  omega

/-- A call leaves what lies below its arguments. -/
theorem cell_enterFrame_of_lt (below : index < stack.sp - arguments) :
    (stack.enterFrame context arguments locals).cell index = stack.cell index := by
  rw [cell_enterFrame stack context arguments locals index claimed covered, cell_zero,
    if_neg (by omega), FrameContext.cell_write_of_outside _ _ _ _ (.inl below), cell_shiftUp,
    if_neg (by omega), if_neg (by omega)]

/-- The first locals of a frame are the arguments, and the others are zero. -/
theorem cell_enterFrame_local (inside : index < locals) :
    (stack.enterFrame context arguments locals).cell
        (stack.sp - arguments + FrameContext.size + index) =
      if index < arguments then stack.cell (stack.sp - arguments + index) else (0, false) := by
  rw [cell_enterFrame stack context arguments locals _ claimed covered, cell_zero]
  by_cases argument : index < arguments
  · have source : stack.sp - arguments + FrameContext.size + index - FrameContext.size =
        stack.sp - arguments + index := by omega
    rw [if_neg (by omega), if_pos argument,
      FrameContext.cell_write_of_outside _ _ _ _ (.inr (by omega)), cell_shiftUp,
      if_neg (by omega), if_pos (by omega), source]
  · rw [if_pos (by omega), if_neg argument]

/-- The context of a frame is what the call saved. -/
theorem read_enterFrame :
    FrameContext.read (stack.enterFrame context arguments locals) (stack.sp - arguments + 3) =
      context.decoded := by
  rw [← context.read_write (stack.shiftUp (stack.sp - arguments) arguments FrameContext.size)]
  apply FrameContext.read_congr
  intro index above below
  have cell := cell_enterFrame stack context arguments locals index claimed covered
  rw [cell_zero, if_neg (by omega)] at cell
  exact raw_eq_of_cell_eq cell

end

end Stack

end Jvm
