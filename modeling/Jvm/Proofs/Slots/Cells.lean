import Mathlib.Algebra.GroupWithZero.Nat
import Jvm.Slots.Stack
import Jvm.IndexSet

/-!
# Stacks cell by cell

A stack is described by its cells, each a slot with its tag. The tags are kept in an index set.
-/

/-!
## Membership in index sets

An index set is determined by its membership function. Each operation on sets is
described here by what it does to that function, so that nothing else has to
look at the words behind it: two indices have the same bit of the same word only
if they are the same.
-/

namespace Jvm.IndexSet

variable (indices : IndexSet) (index other : Nat)

theorem toBitVec_bit : (bit index).toBitVec = BitVec.twoPow 64 (index % 64) := by
  have small : index % 64 < 64 := Nat.mod_lt _ (by decide)
  have place : (UInt64.ofNat (index % 64)).toNat % 64 = index % 64 := by
    rw [UInt64.toNat_ofNat_of_lt' (Nat.lt_trans small (by decide)), Nat.mod_mod]
  apply BitVec.eq_of_toNat_eq
  rw [UInt64.toNat_toBitVec, bit, UInt64.toNat_shiftLeft, place, BitVec.toNat_twoPow,
    UInt64.toNat_one, Nat.one_shiftLeft]

theorem getLsbD_bit : (bit index).toBitVec.getLsbD (other % 64) =
    decide (other % 64 = index % 64) := by
  have small : index % 64 < 64 := Nat.mod_lt _ (by decide)
  rw [toBitVec_bit, BitVec.getLsbD_twoPow, decide_eq_true small, Bool.true_and]
  exact decide_eq_decide.mpr eq_comm

/-- An index is a member if its bit is set. -/
theorem contains_eq_getLsbD :
    indices.contains index = (indices.word index).toBitVec.getLsbD (index % 64) := by
  have masked : (indices.word index &&& bit index).toBitVec =
      if (indices.word index).toBitVec.getLsbD (index % 64) then BitVec.twoPow 64 (index % 64)
      else 0 := by
    rw [UInt64.toBitVec_and, toBitVec_bit, BitVec.and_twoPow]
    rfl
  rw [contains]
  cases held : (indices.word index).toBitVec.getLsbD (index % 64) with
  | true =>
      rw [held, if_pos rfl, ← toBitVec_bit] at masked
      rw [UInt64.toBitVec_inj.mp masked, bne_iff_ne]
      intro zero
      have own := getLsbD_bit index index
      rw [zero, decide_eq_true rfl] at own
      simp at own
  | false =>
      rw [held, if_neg Bool.false_ne_true] at masked
      rw [bne_eq_false_iff_eq]
      exact UInt64.toBitVec_inj.mp masked

theorem getD_extend (count : Nat) (words : Array UInt64) (place : Nat) :
    (extend count words).getD place 0 = words.getD place 0 := by
  induction count generalizing words with
  | zero => rfl
  | succ count ih =>
      rw [extend, ih]
      simp only [Array.getD_eq_getD_getElem?, Array.getElem?_push]
      by_cases last : place = words.size
      · subst last
        simp
      · simp [last]

theorem word_insert : (indices.insert index).word other =
    if other / 64 = index / 64 then indices.word other ||| bit index else indices.word other := by
  have kept := getD_extend (index / 64 + 1 - indices.words.size) indices.words (other / 64)
  have inside : index / 64 < (extend (index / 64 + 1 - indices.words.size) indices.words).size := by
    rw [size_extend]
    omega
  simp only [insert, word, Array.getD_eq_getD_getElem?, Array.getElem?_modify] at kept ⊢
  by_cases same : other / 64 = index / 64
  · rw [same] at kept
    simp only [same, if_true, ← kept, Array.getElem?_eq_getElem inside, Option.map_some,
      Option.getD_some]
  · rw [if_neg (Ne.symm same), if_neg same]
    exact kept

theorem word_erase : (indices.erase index).word other =
    if other / 64 = index / 64 then indices.word other &&& ~~~bit index
    else indices.word other := by
  simp only [erase, word, Array.getD_eq_getD_getElem?, Array.getElem?_modify]
  by_cases same : other / 64 = index / 64
  · rw [if_pos same.symm, if_pos same]
    cases indices.words[other / 64]? <;> simp
  · rw [if_neg (Ne.symm same), if_neg same]

/-- An index is given by its word and its bit there. -/
theorem beq_eq_word_and_bit : (other == index) =
    (decide (other / 64 = index / 64) && decide (other % 64 = index % 64)) := by
  rw [Bool.eq_iff_iff, beq_iff_eq, Bool.and_eq_true, decide_eq_true_iff, decide_eq_true_iff]
  omega

theorem contains_insert :
    (indices.insert index).contains other = (other == index || indices.contains other) := by
  rw [contains_eq_getLsbD, contains_eq_getLsbD, word_insert, beq_eq_word_and_bit]
  by_cases same : other / 64 = index / 64
  · rw [if_pos same, UInt64.toBitVec_or, BitVec.getLsbD_or, getLsbD_bit, Bool.or_comm]
    simp [same]
  · rw [if_neg same]
    simp [same]

theorem contains_erase :
    (indices.erase index).contains other = (indices.contains other && other != index) := by
  have small : other % 64 < 64 := Nat.mod_lt _ (by decide)
  rw [contains_eq_getLsbD, contains_eq_getLsbD, word_erase, bne, beq_eq_word_and_bit]
  by_cases same : other / 64 = index / 64
  · rw [if_pos same, UInt64.toBitVec_and, UInt64.toBitVec_not, BitVec.getLsbD_and,
      BitVec.getLsbD_not, getLsbD_bit]
    simp [same, small]
  · rw [if_neg same]
    simp [same]

theorem contains_set (isMember : Bool) :
    (indices.set index isMember).contains other =
      if other = index then isMember else indices.contains other := by
  cases isMember with
  | true =>
      rw [set, if_pos rfl, contains_insert]
      by_cases same : other = index <;> simp [same]
  | false =>
      rw [set, if_neg Bool.false_ne_true, contains_erase]
      by_cases same : other = index <;> simp [same]

theorem contains_eraseFrom (start count : Nat) :
    (indices.eraseFrom start count).contains other =
      (indices.contains other && !(decide (start ≤ other) && decide (other < start + count))) := by
  induction count generalizing indices start with
  | zero =>
      have bound : (decide (start ≤ other) && decide (other < start + 0)) = false := by
        simp
      rw [eraseFrom, bound, Bool.not_false, Bool.and_true]
  | succ count ih =>
      rw [eraseFrom, ih, contains_erase]
      rcases Nat.lt_trichotomy other start with below | same | above
      · have left : ¬start + 1 ≤ other := by omega
        have right : ¬start ≤ other := by omega
        simp [left, right, Nat.ne_of_lt below]
      · subst same
        simp
      · have left : start + 1 ≤ other := by omega
        have right : start ≤ other := by omega
        have bound : other < start + 1 + count ↔ other < start + (count + 1) := by omega
        have differs : (other != start) = true := bne_iff_ne.mpr (Nat.ne_of_gt above)
        simp [left, right, bound, differs]

theorem lt_capacity_of_contains (member : indices.contains index = true) :
    index < indices.capacity := by
  apply Nat.lt_of_not_le
  intro beyond
  have absent : indices.words.size ≤ index / 64 := (Nat.le_div_iff_mul_le (by decide)).mpr beyond
  simp [contains, word, Array.getD_eq_getD_getElem?, absent] at member

/-- An index beyond the words is absent, so that cutting the range at their end loses
nothing. -/
theorem contains_eraseRange (start finish : Nat) :
    (indices.eraseRange start finish).contains other =
      (indices.contains other && !(decide (start ≤ other) && decide (other < finish))) := by
  rw [eraseRange, contains_eraseFrom]
  cases member : indices.contains other with
  | true =>
      have bound := indices.lt_capacity_of_contains other member
      by_cases left : start ≤ other
      · have right : other < start + (min finish indices.capacity - start) ↔ other < finish := by
          omega
        simp [left, right]
      · simp [left]
  | false => rfl

/-- The members of a range, whatever words there are, are those among its indices in their
order. -/
theorem members_eq (start finish : Nat) :
    indices.members start finish =
      (List.range' start (finish - start)).filter indices.contains := by
  let inside := min finish indices.capacity - start
  have parts : List.range' start (finish - start) =
      List.range' start inside ++ List.range' (start + inside) (finish - start - inside) := by
    have sizes : finish - start = inside + (finish - start - inside) := by omega
    rw [List.range'_append_1, ← sizes]
  have beyond : (List.range' (start + inside) (finish - start - inside)).filter
      indices.contains = [] := by
    rw [List.filter_eq_nil_iff]
    intro index above member
    have bound := indices.lt_capacity_of_contains index member
    rw [List.mem_range'_1] at above
    omega
  rw [parts, List.filter_append, beyond, List.append_nil, List.range'_eq_map_range]
  rfl

theorem mem_members (start finish : Nat) :
    index ∈ indices.members start finish ↔
      start ≤ index ∧ index < finish ∧ indices.contains index = true := by
  have bounds : start ≤ index ∧ index < start + (finish - start) ↔
      start ≤ index ∧ index < finish := by omega
  rw [members_eq, List.mem_filter, List.mem_range'_1, bounds, and_assoc]

end Jvm.IndexSet

/-!
## Cells of a stack

A cell is a slot with its tag. Every operation on stacks is described by the
cells that it leaves at each index, be it above or below the top, and by the top.
The operations that move cells about come last; each of them leaves the cells
below its range alone.
-/

namespace Jvm

/-- The cells that a value takes on a stack. -/
def Value.cells : Value → List TaggedSlot
  | .void => []
  | .int value => [(value.toUInt32, false)]
  | .long value => [(Slots.low value.toUInt64, false), (Slots.high value.toUInt64, false)]
  | .float bits => [(bits, false)]
  | .double bits => [(Slots.low bits, false), (Slots.high bits, false)]
  | .ref held => [(Ref.toSlot held, true)]

@[simp] theorem Value.length_cells (value : Value) : value.cells.length = value.slots := by
  cases value <;> rfl

namespace Stack

/-- The slot at an index with its tag. -/
def cell (stack : Stack) (index : Nat) : TaggedSlot := (stack.raw index, stack.isRef index)

@[simp] theorem fst_cell (stack : Stack) (index : Nat) :
    (stack.cell index).1 = stack.raw index := rfl

@[simp] theorem snd_cell (stack : Stack) (index : Nat) :
    (stack.cell index).2 = stack.isRef index := rfl

theorem raw_eq_of_cell_eq {left right : Stack} {index : Nat}
    (same : left.cell index = right.cell index) : left.raw index = right.raw index :=
  congrArg Prod.fst same

theorem cells_eq_map (stack : Stack) (start count : Nat) :
    stack.cells start count = (List.range count).map fun offset => stack.cell (start + offset) :=
  rfl

@[simp] theorem length_cells (stack : Stack) (start count : Nat) :
    (stack.cells start count).length = count := by
  rw [cells_eq_map, List.length_map, List.length_range]

theorem getElem?_cells (stack : Stack) (start count offset : Nat) :
    (stack.cells start count)[offset]? =
      if offset < count then some (stack.cell (start + offset)) else none := by
  rw [cells_eq_map, List.getElem?_map]
  by_cases inside : offset < count <;> simp [inside]

/-! ### Growing -/

theorem size_extend (count : Nat) (slots : Array Slot) :
    (extend count slots).size = slots.size + count := by
  induction count generalizing slots with
  | zero => rfl
  | succ count ih =>
      rw [extend, ih, Array.size_push]
      omega

theorem getD_extend (count index : Nat) (slots : Array Slot) :
    (extend count slots).getD index 0 = slots.getD index 0 := by
  induction count generalizing slots with
  | zero => rfl
  | succ count ih =>
      rw [extend, ih]
      simp only [Array.getD_eq_getD_getElem?, Array.getElem?_push]
      by_cases last : index = slots.size <;> simp [last]

section

variable (stack : Stack) (index other size sp : Nat) (value : Slot) (isRef : Bool)

@[simp] theorem sp_ensure : (stack.ensure size).sp = stack.sp := by
  rw [ensure]
  split <;> rfl

@[simp] theorem limit_ensure : (stack.ensure size).limit = stack.limit := by
  rw [ensure]
  split <;> rfl

@[simp] theorem cell_ensure : (stack.ensure size).cell index = stack.cell index := by
  rw [ensure]
  split
  · exact Prod.ext (getD_extend _ _ _) rfl
  · rfl

theorem le_size_slots_ensure : size ≤ (stack.ensure size).slots.size := by
  rw [ensure]
  split
  · simp only [size_extend]
    omega
  · omega

/-! ### Single cells -/

@[simp] theorem sp_write : (stack.write index value isRef).sp = stack.sp :=
  stack.sp_ensure _

@[simp] theorem limit_write : (stack.write index value isRef).limit = stack.limit :=
  stack.limit_ensure _

theorem cell_write :
    (stack.write index value isRef).cell other =
      if other = index then (value, isRef) else stack.cell other := by
  have inside : index < (stack.ensure (index + 1)).slots.size :=
    stack.le_size_slots_ensure (index + 1)
  have kept := stack.cell_ensure other (index + 1)
  simp only [cell, raw, Stack.isRef, Array.getD_eq_getD_getElem?] at kept
  simp only [cell, write, Stack.isRef, IndexSet.contains_set, raw, Array.getD_eq_getD_getElem?,
    Array.getElem?_setIfInBounds]
  by_cases same : other = index
  · subst same
    simp [inside]
  · rw [if_neg (Ne.symm same), if_neg same, if_neg same]
    exact kept

theorem cell_write_of_ne (differs : other ≠ index) :
    (stack.write index value isRef).cell other = stack.cell other := by
  rw [cell_write, if_neg differs]

theorem cell_setRaw :
    (stack.setRaw index value).cell other =
      if other = index then (value, false) else stack.cell other :=
  stack.cell_write index other value false

@[simp] theorem sp_setRaw : (stack.setRaw index value).sp = stack.sp := stack.sp_write ..

@[simp] theorem limit_setRaw : (stack.setRaw index value).limit = stack.limit :=
  stack.limit_write ..

theorem cell_storeRef (ref : Option Ref) :
    (stack.storeRef index ref).cell other =
      if other = index then (Ref.toSlot ref, true) else stack.cell other :=
  stack.cell_write index other (Ref.toSlot ref) true

/-! ### The top -/

@[simp] theorem sp_setSp : (stack.setSp sp).sp = sp := by
  rw [setSp]
  split <;> rfl

@[simp] theorem limit_setSp : (stack.setSp sp).limit = stack.limit := by
  rw [setSp]
  split
  · rfl
  · exact stack.limit_ensure sp

/-- Slots given up lose their tags and keep their bits. -/
theorem cell_setSp :
    (stack.setSp sp).cell index =
      if sp ≤ index ∧ index < stack.sp then (stack.raw index, false) else stack.cell index := by
  rw [setSp]
  split
  next lower =>
    by_cases given : sp ≤ index ∧ index < stack.sp
    · rw [if_pos given]
      refine Prod.ext rfl ?_
      simp [cell, Stack.isRef, IndexSet.contains_eraseRange, given]
    · rw [if_neg given]
      refine Prod.ext rfl ?_
      have outside : (decide (sp ≤ index) && decide (index < stack.sp)) = false := by
        simpa using given
      simp only [cell, Stack.isRef, IndexSet.contains_eraseRange, outside, Bool.not_false,
        Bool.and_true]
  next raised =>
    have outside : ¬(sp ≤ index ∧ index < stack.sp) := by omega
    rw [if_neg outside]
    exact stack.cell_ensure index sp

theorem cell_setSp_of_lt (below : index < sp) : (stack.setSp sp).cell index = stack.cell index := by
  rw [cell_setSp, if_neg (by omega)]

theorem cell_setSp_of_le (raised : stack.sp ≤ sp) :
    (stack.setSp sp).cell index = stack.cell index := by
  rw [cell_setSp, if_neg (by omega)]

end

/-! ### Ranges -/

section

variable (stack : Stack) (start index : Nat)

@[simp] theorem sp_writeCells (cells : List TaggedSlot) :
    (stack.writeCells start cells).sp = stack.sp := by
  induction cells generalizing stack start with
  | nil => rfl
  | cons cell cells ih => rw [writeCells, ih, sp_write]

@[simp] theorem limit_writeCells (cells : List TaggedSlot) :
    (stack.writeCells start cells).limit = stack.limit := by
  induction cells generalizing stack start with
  | nil => rfl
  | cons cell cells ih => rw [writeCells, ih, limit_write]

/-- Written cells stand at their places, and all others are untouched. -/
theorem cell_writeCells (cells : List TaggedSlot) :
    (stack.writeCells start cells).cell index =
      if start ≤ index then (cells[index - start]?).getD (stack.cell index)
      else stack.cell index := by
  induction cells generalizing stack start with
  | nil => simp [writeCells]
  | cons head cells ih =>
      rw [writeCells, ih, cell_write]
      rcases Nat.lt_trichotomy index start with below | same | above
      · rw [if_neg (by omega), if_neg (by omega), if_neg (by omega)]
      · subst same
        rw [if_neg (by omega), if_pos rfl, if_pos (Nat.le_refl _), Nat.sub_self]
        rfl
      · obtain ⟨offset, rfl⟩ := Nat.exists_eq_add_of_lt above
        have next : start + offset + 1 - start = offset + 1 := by omega
        have rest : start + offset + 1 - (start + 1) = offset := by omega
        rw [if_pos (by omega), if_neg (by omega), if_pos (by omega), next, rest,
          List.getElem?_cons_succ]

theorem cell_writeCells_of_lt (cells : List TaggedSlot) (below : index < start) :
    (stack.writeCells start cells).cell index = stack.cell index := by
  rw [cell_writeCells, if_neg (by omega)]

@[simp] theorem sp_zeroFrom (count : Nat) : (stack.zeroFrom start count).sp = stack.sp := by
  induction count generalizing stack start with
  | zero => rfl
  | succ count ih => rw [zeroFrom, ih, sp_setRaw]

@[simp] theorem limit_zeroFrom (count : Nat) :
    (stack.zeroFrom start count).limit = stack.limit := by
  induction count generalizing stack start with
  | zero => rfl
  | succ count ih => rw [zeroFrom, ih, limit_setRaw]

theorem cell_zeroFrom (count : Nat) :
    (stack.zeroFrom start count).cell index =
      if start ≤ index ∧ index < start + count then (0, false) else stack.cell index := by
  induction count generalizing stack start with
  | zero => rw [zeroFrom, if_neg (by omega)]
  | succ count ih =>
      rw [zeroFrom, ih, cell_setRaw]
      rcases Nat.lt_trichotomy index start with below | same | above
      · rw [if_neg (by omega), if_neg (by omega), if_neg (by omega)]
      · subst same
        rw [if_neg (by omega), if_pos rfl, if_pos (by omega)]
      · have bounds : start + 1 ≤ index ∧ index < start + 1 + count ↔
            start ≤ index ∧ index < start + (count + 1) := by omega
        rw [if_neg (Nat.ne_of_gt above)]
        simp only [bounds]

@[simp] theorem sp_zero (finish : Nat) : (stack.zero start finish).sp = stack.sp := by
  rw [zero, sp_zeroFrom, sp_ensure]

@[simp] theorem limit_zero (finish : Nat) : (stack.zero start finish).limit = stack.limit := by
  rw [zero, limit_zeroFrom, limit_ensure]

theorem cell_zero (finish : Nat) :
    (stack.zero start finish).cell index =
      if start ≤ index ∧ index < finish then (0, false) else stack.cell index := by
  have bounds : start ≤ index ∧ index < start + (finish - start) ↔
      start ≤ index ∧ index < finish := by omega
  rw [zero, cell_zeroFrom, cell_ensure]
  simp only [bounds]

@[simp] theorem sp_moveUp (distance count : Nat) :
    (stack.moveUp start distance count).sp = stack.sp := by
  induction count generalizing stack with
  | zero => rfl
  | succ count ih => rw [moveUp, ih, sp_write]

@[simp] theorem limit_moveUp (distance count : Nat) :
    (stack.moveUp start distance count).limit = stack.limit := by
  induction count generalizing stack with
  | zero => rfl
  | succ count ih => rw [moveUp, ih, limit_write]

/-- Moved cells stand higher by the distance: where one is written, the cell that was there is
moved already. -/
theorem cell_moveUp (distance count : Nat) :
    (stack.moveUp start distance count).cell index =
      if start + distance ≤ index ∧ index < start + distance + count then
        stack.cell (index - distance)
      else stack.cell index := by
  induction count generalizing stack with
  | zero => rw [moveUp, if_neg (by omega)]
  | succ count ih =>
      rw [moveUp, ih, cell_write, cell_write]
      rcases Nat.lt_trichotomy index (start + count + distance) with below | same | above
      · have bounds : start + distance ≤ index ∧ index < start + distance + count ↔
            start + distance ≤ index ∧ index < start + distance + (count + 1) := by omega
        have lower : index - distance ≠ start + count + distance := by omega
        rw [if_neg lower, if_neg (Nat.ne_of_lt below)]
        simp only [bounds]
      · have source : index - distance = start + count := by omega
        rw [if_neg (by omega), if_pos same, if_pos (by omega), source]
        rfl
      · rw [if_neg (by omega), if_neg (Nat.ne_of_gt above), if_neg (by omega)]

@[simp] theorem sp_shiftUp (count distance : Nat) :
    (stack.shiftUp start count distance).sp = stack.sp := by
  rw [shiftUp]
  simp only [sp_moveUp, sp_ensure]

@[simp] theorem limit_shiftUp (count distance : Nat) :
    (stack.shiftUp start count distance).limit = stack.limit := by
  rw [shiftUp]
  simp only [limit_moveUp, limit_ensure]

/-- Shifted cells stand higher by the distance; below them the tags are gone. -/
theorem cell_shiftUp (count distance : Nat) :
    (stack.shiftUp start count distance).cell index =
      if start ≤ index ∧ index < start + distance then (stack.raw index, false)
      else if start + distance ≤ index ∧ index < start + distance + count then
        stack.cell (index - distance)
      else stack.cell index := by
  have moved : ((stack.ensure (start + count + distance)).moveUp start distance count).cell index =
      if start + distance ≤ index ∧ index < start + distance + count then
        stack.cell (index - distance)
      else stack.cell index := by
    rw [cell_moveUp, cell_ensure, cell_ensure]
  rw [← moved]
  by_cases left : start ≤ index ∧ index < start + distance
  · have raw := congrArg Prod.fst moved
    rw [if_neg (by omega)] at raw
    rw [if_pos left, shiftUp]
    refine Prod.ext raw ?_
    simp [cell, isRef, IndexSet.contains_eraseRange, left]
  · have outside : (decide (start ≤ index) && decide (index < start + distance)) = false := by
      simpa using left
    rw [if_neg left, shiftUp]
    refine Prod.ext rfl ?_
    simp only [cell, isRef, IndexSet.contains_eraseRange, outside, Bool.not_false, Bool.and_true]

end

/-! ### Pushing -/

section

variable (stack : Stack) (index : Nat)

/-- A pushed value stands above the old top, which it raises by its slots. -/
theorem pushValue_eq (value : Value) :
    stack.pushValue value =
      { stack.writeCells stack.sp value.cells with sp := stack.sp + value.slots } := by
  cases value <;>
    simp [pushValue, push, pushWide, setRawWide, pushRef, storeRef, setRaw, Value.cells,
      Value.slots, writeCells]

@[simp] theorem sp_pushValue (value : Value) :
    (stack.pushValue value).sp = stack.sp + value.slots := by
  rw [pushValue_eq]

@[simp] theorem limit_pushValue (value : Value) :
    (stack.pushValue value).limit = stack.limit := by
  rw [pushValue_eq]
  exact stack.limit_writeCells ..

/-- Pushing the arguments of a call raises the top by their slots. -/
theorem sp_pushValues (arguments : List Value) :
    (arguments.foldl pushValue stack).sp = stack.sp + (arguments.map Value.slots).sum := by
  induction arguments generalizing stack with
  | nil => rfl
  | cons value arguments ih =>
      rw [List.foldl_cons, ih, sp_pushValue, List.map_cons, List.sum_cons, Nat.add_assoc]

theorem limit_pushValues (arguments : List Value) :
    (arguments.foldl pushValue stack).limit = stack.limit := by
  induction arguments generalizing stack with
  | nil => rfl
  | cons value arguments ih => rw [List.foldl_cons, ih, limit_pushValue]

theorem cell_pushValue (value : Value) :
    (stack.pushValue value).cell index =
      if stack.sp ≤ index then (value.cells[index - stack.sp]?).getD (stack.cell index)
      else stack.cell index := by
  rw [pushValue_eq]
  exact stack.cell_writeCells stack.sp index value.cells

/-- The slots below the top after a push are those before and the value's. -/
theorem toList_pushValue (value : Value) :
    (stack.pushValue value).toList = stack.toList ++ value.cells := by
  apply List.ext_getElem?
  intro index
  rw [toList, getElem?_cells, sp_pushValue, Nat.zero_add, cell_pushValue, toList,
    List.getElem?_append, length_cells, getElem?_cells, Nat.zero_add]
  by_cases below : index < stack.sp
  · rw [if_pos (by omega), if_neg (by omega), if_pos below, if_pos below]
  · have length := value.length_cells
    rw [if_pos (Nat.le_of_not_lt below), if_neg below]
    by_cases inside : index - stack.sp < value.cells.length
    · rw [if_pos (by omega), List.getElem?_eq_getElem inside, Option.getD_some]
    · rw [if_neg (by omega), List.getElem?_eq_none (Nat.le_of_not_lt inside)]

/-- Stacks with the same top and the same cells below it hold the same slots. -/
theorem toList_eq_of_cell_eq {left right : Stack} (top : left.sp = right.sp)
    (same : ∀ index < left.sp, left.cell index = right.cell index) :
    left.toList = right.toList := by
  rw [toList, toList, ← top, cells_eq_map, cells_eq_map]
  apply List.map_congr_left
  intro index inside
  rw [Nat.zero_add]
  exact same index (List.mem_range.mp inside)

end

end Stack

end Jvm
