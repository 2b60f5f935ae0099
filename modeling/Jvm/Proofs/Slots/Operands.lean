import Jvm.Proofs.Slots.Cells
import Jvm.Slots.Arithmetic

/-!
# Operations above a floor

An operation that finds its operands above a floor stays above it: the cells
below the floor are the same afterwards. Nothing checks that the operands are
there, so each operation states how many slots it takes.
-/

namespace Jvm

/-- Slots that a transfer moves. -/
def Transfer.slots : Transfer → Nat
  | .double => 2
  | _ => 1

/-- Slots that a conversion takes. -/
def Conversion.slots : Conversion → Nat
  | .longToInt | .longToFloat | .longToDouble | .doubleToInt | .doubleToLong | .doubleToFloat => 2
  | _ => 1

/-- Slots that a condition takes. -/
def Condition.slots : Condition → Nat
  | .zero _ | .null _ => 1
  | .compare _ | .same _ => 2

namespace Stack

/-- Whether a stack comes from another one by operations above a floor. -/
structure Keeps (floor : Nat) (before after : Stack) : Prop where
  limit : after.limit = before.limit
  room : floor ≤ after.sp
  cells : ∀ index < floor, after.cell index = before.cell index

variable {floor : Nat} {stack first second third : Stack}

theorem Keeps.trans (left : first.Keeps floor second) (right : second.Keeps floor third) :
    first.Keeps floor third where
  limit := right.limit.trans left.limit
  room := right.room
  cells index below := (right.cells index below).trans (left.cells index below)

/-! ## Writing and moving the top -/

theorem keeps_setSp {sp : Nat} (room : floor ≤ sp) : stack.Keeps floor (stack.setSp sp) where
  limit := limit_setSp stack sp
  room := by
    rw [sp_setSp]
    exact room
  cells index below := cell_setSp_of_lt stack index sp (Nat.lt_of_lt_of_le below room)

theorem keeps_discard {count : Nat} (room : floor + count ≤ stack.sp) :
    stack.Keeps floor (stack.discard count) :=
  keeps_setSp (Nat.le_sub_of_add_le room)

theorem keeps_write {index : Nat} (room : floor ≤ stack.sp) (above : floor ≤ index) (value : Slot)
    (isRef : Bool) : stack.Keeps floor (stack.write index value isRef) where
  limit := limit_write stack index value isRef
  room := by
    rw [sp_write]
    exact room
  cells other below := by
    rw [cell_write_of_ne]
    exact Nat.ne_of_lt (Nat.lt_of_lt_of_le below above)

theorem keeps_setRaw {index : Nat} (room : floor ≤ stack.sp) (above : floor ≤ index)
    (value : Slot) : stack.Keeps floor (stack.setRaw index value) :=
  keeps_write room above value false

theorem keeps_setRawWide {index : Nat} (room : floor ≤ stack.sp) (above : floor ≤ index)
    (bits : UInt64) : stack.Keeps floor (stack.setRawWide index bits) := by
  have low := keeps_setRaw room above (Slots.low bits)
  exact low.trans (keeps_setRaw low.room (Nat.le_succ_of_le above) _)

theorem keeps_storeRef {index : Nat} (room : floor ≤ stack.sp) (above : floor ≤ index)
    (ref : Option Ref) : stack.Keeps floor (stack.storeRef index ref) :=
  keeps_write room above _ true

theorem keeps_writeCells {start : Nat} (room : floor ≤ stack.sp) (above : floor ≤ start)
    (cells : List TaggedSlot) : stack.Keeps floor (stack.writeCells start cells) where
  limit := limit_writeCells stack start cells
  room := by
    rw [sp_writeCells]
    exact room
  cells index below := cell_writeCells_of_lt stack start index cells (Nat.lt_of_lt_of_le below above)

/-- The top is no cell. -/
theorem keeps_top {sp : Nat} (room : floor ≤ sp) : stack.Keeps floor { stack with sp } :=
  ⟨rfl, room, fun _ _ => rfl⟩

/-- Raising the top gives nothing up. -/
theorem Keeps.raise (keeps : first.Keeps floor second) (count : Nat) :
    first.Keeps floor { second with sp := second.sp + count } where
  limit := keeps.limit
  room := Nat.le_add_right_of_le keeps.room
  cells := keeps.cells

/-! ## Pushing and popping -/

theorem keeps_pushValue (room : floor ≤ stack.sp) (value : Value) :
    stack.Keeps floor (stack.pushValue value) := by
  have written := keeps_writeCells room room value.cells
  have raised := written.raise value.slots
  rw [sp_writeCells] at raised
  rw [pushValue_eq]
  exact raised

theorem keeps_push (room : floor ≤ stack.sp) (value : Slot) :
    stack.Keeps floor (stack.push value) :=
  keeps_pushValue room (.float value)

theorem keeps_pushWide (room : floor ≤ stack.sp) (bits : UInt64) :
    stack.Keeps floor (stack.pushWide bits) :=
  keeps_pushValue room (.double bits)

theorem keeps_pushRef (room : floor ≤ stack.sp) (ref : Option Ref) :
    stack.Keeps floor (stack.pushRef ref) :=
  keeps_pushValue room (.ref ref)

@[simp] theorem sp_pop : stack.pop.2.sp = stack.sp - 1 := sp_setSp stack _

@[simp] theorem sp_popWide : stack.popWide.2.sp = stack.sp - 2 := sp_setSp stack _

@[simp] theorem sp_popRef : stack.popRef.2.sp = stack.sp - 1 := sp_setSp stack _

theorem keeps_pop (room : floor + 1 ≤ stack.sp) : stack.Keeps floor stack.pop.2 :=
  keeps_setSp (Nat.le_sub_of_add_le room)

theorem keeps_popWide (room : floor + 2 ≤ stack.sp) : stack.Keeps floor stack.popWide.2 :=
  keeps_setSp (Nat.le_sub_of_add_le room)

theorem keeps_popRef (room : floor + 1 ≤ stack.sp) : stack.Keeps floor stack.popRef.2 :=
  keeps_pop room

@[simp] theorem sp_popValue (kind : Kind) :
    (stack.popValue kind).2.sp = stack.sp - kind.slots := by
  cases kind <;> exact sp_setSp stack _

theorem keeps_popValue {kind : Kind} (room : floor + kind.slots ≤ stack.sp) :
    stack.Keeps floor (stack.popValue kind).2 := by
  cases kind with
  | long | double => exact keeps_popWide room
  | _ => exact keeps_pop room

/-- Two pops in a row. -/
theorem keeps_pop_pop (room : floor + 2 ≤ stack.sp) : stack.Keeps floor stack.pop.2.pop.2 := by
  have right : stack.Keeps floor stack.pop.2 := keeps_pop (by omega)
  refine right.trans (keeps_pop ?_)
  rw [sp_pop]
  omega

theorem keeps_popWide_popWide (room : floor + 4 ≤ stack.sp) :
    stack.Keeps floor stack.popWide.2.popWide.2 := by
  have right : stack.Keeps floor stack.popWide.2 := keeps_popWide (by omega)
  refine right.trans (keeps_popWide ?_)
  rw [sp_popWide]
  omega

theorem keeps_pop_popWide (room : floor + 3 ≤ stack.sp) :
    stack.Keeps floor stack.pop.2.popWide.2 := by
  have right : stack.Keeps floor stack.pop.2 := keeps_pop (by omega)
  refine right.trans (keeps_popWide ?_)
  rw [sp_pop]
  omega

/-! ## Rearrangement -/

theorem keeps_swap (room : floor + 2 ≤ stack.sp) : stack.Keeps floor stack.swap := by
  rw [swap, if_neg (by omega)]
  exact keeps_writeCells (by omega) (by omega) _

/-- What a move leaves is written above its start. -/
theorem keeps_moveUp {start : Nat} (room : floor ≤ stack.sp) (above : floor ≤ start)
    (distance count : Nat) : stack.Keeps floor (stack.moveUp start distance count) where
  limit := limit_moveUp stack start distance count
  room := (sp_moveUp stack start distance count).symm ▸ room
  cells index below := by
    rw [cell_moveUp, if_neg (by omega)]

theorem keeps_dup {count skip : Nat} (room : floor + (count + skip) ≤ stack.sp) :
    stack.Keeps floor (stack.dup count skip) := by
  rw [dup, if_neg (by omega)]
  have base : floor ≤ stack.sp - (count + skip) := Nat.le_sub_of_add_le room
  have grown : stack.Keeps floor (stack.ensure (stack.sp + count)) :=
    ⟨limit_ensure .., by rw [sp_ensure]; omega, fun _ _ => cell_ensure ..⟩
  have moved := grown.trans (keeps_moveUp grown.room base count (count + skip))
  exact (moved.trans (keeps_writeCells moved.room base _)).raise count

theorem keeps_increment {index : Nat} (room : floor ≤ stack.sp) (above : floor ≤ index)
    (delta : Int32) : stack.Keeps floor (stack.increment index delta) :=
  keeps_setRaw room above _

/-! ## Computing -/

theorem keeps_mapTop (room : floor + 1 ≤ stack.sp) (change : Slot → Slot) :
    stack.Keeps floor (stack.mapTop change) := by
  have popped := keeps_pop room
  exact popped.trans (keeps_push popped.room _)

theorem keeps_combine (room : floor + 2 ≤ stack.sp) (join : Slot → Slot → Slot) :
    stack.Keeps floor (stack.combine join) := by
  have popped := keeps_pop_pop room
  exact popped.trans (keeps_push popped.room _)

theorem keeps_combineWide (room : floor + 4 ≤ stack.sp) (join : UInt64 → UInt64 → UInt64) :
    stack.Keeps floor (stack.combineWide join) := by
  have popped := keeps_popWide_popWide room
  exact popped.trans (keeps_pushWide popped.room _)

theorem keeps_applyInt (room : floor + 2 ≤ stack.sp) (op : IntOp) :
    stack.Keeps floor (stack.applyInt op).2 := by
  have popped := keeps_pop_pop room
  simp only [applyInt, popInt]
  split
  · exact popped.trans (keeps_push popped.room _)
  · exact popped

theorem keeps_applyLong (room : floor + 4 ≤ stack.sp) (op : IntOp) :
    stack.Keeps floor (stack.applyLong op).2 := by
  have popped := keeps_popWide_popWide room
  simp only [applyLong, popLong]
  split
  · exact popped.trans (keeps_pushWide popped.room _)
  · exact popped

theorem keeps_shiftInt (room : floor + 2 ≤ stack.sp) (op : ShiftOp) :
    stack.Keeps floor (stack.shiftInt op) := by
  have popped := keeps_pop_pop room
  exact popped.trans (keeps_push popped.room _)

theorem keeps_shiftLong (room : floor + 3 ≤ stack.sp) (op : ShiftOp) :
    stack.Keeps floor (stack.shiftLong op) := by
  have popped := keeps_pop_popWide room
  exact popped.trans (keeps_pushWide popped.room _)

theorem keeps_negate {kind : Kind} (room : floor + kind.slots ≤ stack.sp) :
    stack.Keeps floor (stack.negate kind) := by
  cases kind with
  | long | double =>
      have popped := keeps_popWide room
      exact popped.trans (keeps_pushWide popped.room _)
  | _ => exact keeps_mapTop room _

theorem keeps_compareLong (room : floor + 4 ≤ stack.sp) : stack.Keeps floor stack.compareLong := by
  have popped := keeps_popWide_popWide room
  exact popped.trans (keeps_push popped.room _)

theorem keeps_compareFloat (room : floor + 2 ≤ stack.sp) (nan : Int32) :
    stack.Keeps floor (stack.compareFloat nan) :=
  keeps_combine room _

theorem keeps_compareDouble (room : floor + 4 ≤ stack.sp) (nan : Int32) :
    stack.Keeps floor (stack.compareDouble nan) := by
  have popped := keeps_popWide_popWide room
  exact popped.trans (keeps_push popped.room _)

theorem keeps_widen (room : floor + 1 ≤ stack.sp) (change : Slot → UInt64) :
    stack.Keeps floor (stack.widen change) := by
  have popped := keeps_pop room
  exact popped.trans (keeps_pushWide popped.room _)

theorem keeps_cut (room : floor + 2 ≤ stack.sp) (change : UInt64 → Slot) :
    stack.Keeps floor (stack.cut change) := by
  have popped := keeps_popWide room
  exact popped.trans (keeps_push popped.room _)

theorem keeps_mapWide (room : floor + 2 ≤ stack.sp) (change : UInt64 → UInt64) :
    stack.Keeps floor (stack.mapWide change) := by
  have popped := keeps_popWide room
  exact popped.trans (keeps_pushWide popped.room _)

theorem keeps_convert {conversion : Conversion} (room : floor + conversion.slots ≤ stack.sp) :
    stack.Keeps floor (stack.convert conversion) := by
  cases conversion with
  | intToLong | intToDouble | floatToLong | floatToDouble =>
      simp only [convert]
      exact keeps_widen room _
  | longToInt | longToFloat | doubleToInt | doubleToFloat =>
      simp only [convert]
      exact keeps_cut room _
  | longToDouble | doubleToLong =>
      simp only [convert]
      exact keeps_mapWide room _
  | _ =>
      simp only [convert]
      exact keeps_mapTop room _

/-! ## Locals and conditions -/

theorem keeps_load (room : floor ≤ stack.sp) (transfer : Transfer) (slot : Nat) :
    stack.Keeps floor (stack.load transfer slot) := by
  cases transfer with
  | single => exact keeps_push room _
  | double => exact keeps_pushWide room _
  | reference => exact keeps_pushRef room _

theorem keeps_store {transfer : Transfer} {slot : Nat} (room : floor + transfer.slots ≤ stack.sp)
    (above : floor ≤ slot) : stack.Keeps floor (stack.store transfer slot) := by
  cases transfer with
  | single =>
      have popped : stack.Keeps floor stack.pop.2 := keeps_pop room
      exact popped.trans (keeps_setRaw popped.room above _)
  | double =>
      have popped : stack.Keeps floor stack.popWide.2 := keeps_popWide room
      exact popped.trans (keeps_setRawWide popped.room above _)
  | reference =>
      have popped : stack.Keeps floor stack.popRef.2 := keeps_popRef room
      exact popped.trans (keeps_storeRef popped.room above _)

theorem keeps_decideCondition {condition : Condition} (room : floor + condition.slots ≤ stack.sp) :
    stack.Keeps floor (stack.decideCondition condition).2 := by
  cases condition with
  | zero | null => exact keeps_pop room
  | compare | same => exact keeps_pop_pop room

end Stack

end Jvm
