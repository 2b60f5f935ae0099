import Jvm.Slots.Fields
import Jvm.Proofs.Slots.Tiling

/-!
# Stacks as lists

A stack is the list of the tagged slots below its top. Its slots and its tags are
kept apart and moved one by one; on the list each operation is a rearrangement
of its end, or the change of a few places. The operations are refined by those on
lists as long as they find their operands, and the stack keeps no tags above its
top.

A load copies the slots of a local to the end of the list, and a store moves the end of
the list to the place of a local. What arrives is tagged if it is moved as a reference,
and only then.
-/

namespace Jvm

/-- The reference in a cell, unless it is null or the cell is not tagged. -/
def TaggedSlot.held? (cell : TaggedSlot) : Option Ref := if cell.2 then Ref.ofSlot cell.1 else none

namespace Stack

/-- An operation on the slots below the top. -/
inductive Edit where
  | push (slot : Slot)
  | pushWide (bits : UInt64)
  | pushRef (ref : Option Ref)
  | pop
  | popWide
  | popRef
  | discard (count : Nat)
  | lower (sp : Nat)
  | dup (count skip : Nat)
  | swap
  | increment (index : Nat) (delta : Int32)
  | store (index : Nat) (slot : Slot)
  | storeWide (index : Nat) (bits : UInt64)
  | storeRef (index : Nat) (ref : Option Ref)
  deriving DecidableEq

/-- What an operation answers. -/
inductive Popped where
  | nothing
  | slot (slot : Slot)
  | wide (bits : UInt64)
  | ref (ref : Option Ref)
  deriving DecidableEq

/-- Performs an operation. -/
def edit (stack : Stack) : Edit → Popped × Stack
  | .push slot => (.nothing, stack.push slot)
  | .pushWide bits => (.nothing, stack.pushWide bits)
  | .pushRef ref => (.nothing, stack.pushRef ref)
  | .pop => (.slot stack.pop.1, stack.pop.2)
  | .popWide => (.wide stack.popWide.1, stack.popWide.2)
  | .popRef => (.ref stack.popRef.1, stack.popRef.2)
  | .discard count => (.nothing, stack.discard count)
  | .lower sp => (.nothing, stack.setSp sp)
  | .dup count skip => (.nothing, stack.dup count skip)
  | .swap => (.nothing, stack.swap)
  | .increment index delta => (.nothing, stack.increment index delta)
  | .store index slot => (.nothing, stack.setRaw index slot)
  | .storeWide index bits => (.nothing, stack.setRawWide index bits)
  | .storeRef index ref => (.nothing, stack.storeRef index ref)

/-- Performs operations one after the other. -/
def editAll (stack : Stack) : List Edit → List Popped × Stack
  | [] => ([], stack)
  | step :: steps =>
    let (answer, stack) := stack.edit step
    let (answers, stack) := stack.editAll steps
    (answer :: answers, stack)

/-- The slots that an operation needs below the top. -/
def Edit.needs : Edit → Nat
  | .push _ | .pushWide _ | .pushRef _ => 0
  | .pop | .popRef => 1
  | .popWide | .swap => 2
  | .discard count => count
  | .lower sp => sp
  | .dup count skip => count + skip
  | .increment index _ | .store index _ | .storeRef index _ => index + 1
  | .storeWide index _ => index + 2

/-- Whether no operation of a sequence underflows. -/
def Affords (stack : Stack) : List Edit → Prop
  | [] => True
  | step :: steps => step.needs ≤ stack.sp ∧ (stack.edit step).2.Affords steps

instance decidableAffords (stack : Stack) : (steps : List Edit) → Decidable (stack.Affords steps)
  | [] => .isTrue trivial
  | step :: steps =>
    have := decidableAffords (stack.edit step).2 steps
    inferInstanceAs (Decidable (step.needs ≤ stack.sp ∧ (stack.edit step).2.Affords steps))

/-! ## Operations on lists -/

/-- What an operation makes of a list of tagged slots, the top at its end, and what it answers. -/
inductive Edit.Turns : Edit → List TaggedSlot → Popped → List TaggedSlot → Prop
  | push (cells : List TaggedSlot) (slot : Slot) :
    Turns (.push slot) cells .nothing (cells ++ [(slot, false)])
  | pushWide (cells : List TaggedSlot) (bits : UInt64) :
    Turns (.pushWide bits) cells .nothing
      (cells ++ [(Slots.low bits, false), (Slots.high bits, false)])
  | pushRef (cells : List TaggedSlot) (ref : Option Ref) :
    Turns (.pushRef ref) cells .nothing (cells ++ [(Ref.toSlot ref, true)])
  | pop (cells : List TaggedSlot) (top : TaggedSlot) :
    Turns .pop (cells ++ [top]) (.slot top.1) cells
  | popWide (cells : List TaggedSlot) (low high : TaggedSlot) :
    Turns .popWide (cells ++ [low, high]) (.wide (Slots.wide low.1 high.1)) cells
  | popRef (cells : List TaggedSlot) (top : TaggedSlot) :
    Turns .popRef (cells ++ [top]) (.ref (Ref.ofSlot top.1)) cells
  | discard (cells given : List TaggedSlot) :
    Turns (.discard given.length) (cells ++ given) .nothing cells
  | lower (cells given : List TaggedSlot) :
    Turns (.lower cells.length) (cells ++ given) .nothing cells
  | dup (below skipped copied : List TaggedSlot) :
    Turns (.dup copied.length skipped.length) (below ++ skipped ++ copied) .nothing
      (below ++ copied ++ skipped ++ copied)
  | swap (below : List TaggedSlot) (lower upper : TaggedSlot) :
    Turns .swap (below ++ [lower, upper]) .nothing (below ++ [upper, lower])
  | increment (below above : List TaggedSlot) (old : TaggedSlot) (delta : Int32) :
    Turns (.increment below.length delta) (below ++ [old] ++ above) .nothing
      (below ++ [(old.1 + delta.toUInt32, false)] ++ above)
  | store (below above : List TaggedSlot) (old : TaggedSlot) (slot : Slot) :
    Turns (.store below.length slot) (below ++ [old] ++ above) .nothing
      (below ++ [(slot, false)] ++ above)
  | storeWide (below above : List TaggedSlot) (first second : TaggedSlot) (bits : UInt64) :
    Turns (.storeWide below.length bits) (below ++ [first, second] ++ above) .nothing
      (below ++ [(Slots.low bits, false), (Slots.high bits, false)] ++ above)
  | storeRef (below above : List TaggedSlot) (old : TaggedSlot) (ref : Option Ref) :
    Turns (.storeRef below.length ref) (below ++ [old] ++ above) .nothing
      (below ++ [(Ref.toSlot ref, true)] ++ above)

/-- What a sequence of operations makes of a list, and what they answer. -/
inductive TurnsAll : List Edit → List TaggedSlot → List Popped → List TaggedSlot → Prop
  | nil (cells : List TaggedSlot) : TurnsAll [] cells [] cells
  | cons {step : Edit} {steps : List Edit} {answer : Popped} {answers : List Popped}
      {before middle after : List TaggedSlot} (first : step.Turns before answer middle)
      (rest : TurnsAll steps middle answers after) :
    TurnsAll (step :: steps) before (answer :: answers) after

/-! ## Lists of cells -/

section

variable (stack : Stack)

@[simp] theorem length_toList : stack.toList.length = stack.sp := length_cells stack 0 stack.sp

@[simp] theorem cells_one (start : Nat) : stack.cells start 1 = [stack.cell start] := rfl

@[simp] theorem cells_two (start : Nat) :
    stack.cells start 2 = [stack.cell start, stack.cell (start + 1)] := rfl

theorem cells_add (start first second : Nat) :
    stack.cells start (first + second) =
      stack.cells start first ++ stack.cells (start + first) second := by
  simp only [cells_eq_map, List.range_add, List.map_append, List.map_map]
  congr 2
  funext offset
  simp only [Function.comp_apply, Nat.add_assoc]

theorem cells_congr {left right : Stack} {start count : Nat}
    (same : ∀ index, start ≤ index → index < start + count → left.cell index = right.cell index) :
    left.cells start count = right.cells start count := by
  rw [cells_eq_map, cells_eq_map]
  apply List.map_congr_left
  intro offset inside
  rw [List.mem_range] at inside
  exact same _ (Nat.le_add_right start offset) (Nat.add_lt_add_left inside start)

/-- The list in two parts. -/
theorem toList_eq_append {index : Nat} (below : index ≤ stack.sp) :
    stack.toList = stack.cells 0 index ++ stack.cells index (stack.sp - index) := by
  have sizes : stack.sp = index + (stack.sp - index) := by omega
  rw [toList]
  conv => lhs; rw [sizes]
  rw [cells_add, Nat.zero_add]

/-- The list without its end, and its end. -/
theorem toList_eq_append_top {count : Nat} (enough : count ≤ stack.sp) :
    stack.toList = stack.cells 0 (stack.sp - count) ++ stack.cells (stack.sp - count) count := by
  have sizes : stack.sp - (stack.sp - count) = count := by omega
  rw [toList_eq_append stack (Nat.sub_le stack.sp count), sizes]

/-- The list around some places. -/
theorem toList_eq_around {index count : Nat} (inside : index + count ≤ stack.sp) :
    stack.toList = stack.cells 0 index ++ stack.cells index count ++
      stack.cells (index + count) (stack.sp - (index + count)) := by
  rw [toList_eq_append stack inside, cells_add, Nat.zero_add]

theorem cells_writeCells (start : Nat) (cells : List TaggedSlot) :
    (stack.writeCells start cells).cells start cells.length = cells := by
  apply List.ext_getElem?
  intro offset
  rw [getElem?_cells, cell_writeCells, if_pos (Nat.le_add_right start offset),
    Nat.add_sub_cancel_left]
  by_cases inside : offset < cells.length
  · rw [if_pos inside, List.getElem?_eq_getElem inside, Option.getD_some]
  · rw [if_neg inside, List.getElem?_eq_none (Nat.le_of_not_lt inside)]

theorem cell_writeCells_of_le {start index : Nat} {cells : List TaggedSlot}
    (above : start + cells.length ≤ index) :
    (stack.writeCells start cells).cell index = stack.cell index := by
  rw [cell_writeCells, if_pos (by omega), List.getElem?_eq_none (by omega), Option.getD_none]

/-- Writes cells from a place up to the top on, which they raise if they reach beyond it. -/
def overwrite (start : Nat) (cells : List TaggedSlot) : Stack :=
  { stack.writeCells start cells with sp := max stack.sp (start + cells.length) }

/-- Written cells replace those at their places. -/
theorem toList_overwrite (start : Nat) (cells : List TaggedSlot) :
    (stack.overwrite start cells).toList =
      stack.cells 0 start ++ cells ++
        stack.cells (start + cells.length) (stack.sp - (start + cells.length)) := by
  have sizes : max stack.sp (start + cells.length) =
      start + cells.length + (stack.sp - (start + cells.length)) := by omega
  have below : (stack.writeCells start cells).cells 0 start = stack.cells 0 start := by
    apply cells_congr
    intro index _ inside
    exact cell_writeCells_of_lt stack start index cells (by omega)
  have above (count : Nat) : (stack.writeCells start cells).cells (start + cells.length) count =
      stack.cells (start + cells.length) count := by
    apply cells_congr
    intro index beyond _
    exact cell_writeCells_of_le stack beyond
  calc (stack.overwrite start cells).toList
      = (stack.writeCells start cells).cells 0 (max stack.sp (start + cells.length)) := rfl
    _ = stack.cells 0 start ++ cells ++
          stack.cells (start + cells.length) (stack.sp - (start + cells.length)) := by
      rw [sizes, cells_add, cells_add, Nat.zero_add, Nat.zero_add, below, cells_writeCells, above]

/-- Cells that reach the top are the end of the list. -/
theorem toList_overwrite_of_le {start : Nat} {cells : List TaggedSlot}
    (reaches : stack.sp ≤ start + cells.length) :
    (stack.overwrite start cells).toList = stack.cells 0 start ++ cells := by
  rw [toList_overwrite, Nat.sub_eq_zero_of_le reaches]
  exact List.append_nil _

/-- Lowering the top cuts the list. -/
theorem toList_setSp_eq_cells {sp : Nat} : (stack.setSp sp).toList = stack.cells 0 sp := by
  rw [toList, sp_setSp]
  apply cells_congr
  intro index _ below
  exact cell_setSp_of_lt stack index sp (by omega)

end

/-! ## Room and tags -/

section

variable (stack : Stack)

theorem size_le_size_write (index : Nat) (value : Slot) (isRef : Bool) :
    stack.slots.size ≤ (stack.write index value isRef).slots.size := by
  simp only [write, Array.size_setIfInBounds, ensure]
  split
  · simp only [size_extend]
    omega
  · exact Nat.le_refl _

theorem lt_size_write (index : Nat) (value : Slot) (isRef : Bool) :
    index < (stack.write index value isRef).slots.size := by
  simp only [write, Array.size_setIfInBounds]
  exact stack.le_size_slots_ensure (index + 1)

theorem size_le_size_writeCells (start : Nat) (cells : List TaggedSlot) :
    stack.slots.size ≤ (stack.writeCells start cells).slots.size := by
  induction cells generalizing stack start with
  | nil => exact Nat.le_refl _
  | cons cell cells ih => exact Nat.le_trans (stack.size_le_size_write ..) (ih _ _)

/-- Written cells have their slots. -/
theorem le_size_writeCells {start : Nat} (room : start ≤ stack.slots.size)
    (cells : List TaggedSlot) :
    start + cells.length ≤ (stack.writeCells start cells).slots.size := by
  induction cells generalizing stack start with
  | nil => exact room
  | cons cell cells ih =>
      have rest := ih (stack.write start cell.1 cell.2) (stack.lt_size_write start cell.1 cell.2)
      rw [List.length_cons, Nat.add_comm cells.length 1, ← Nat.add_assoc]
      exact rest

theorem size_le_size_ensure (size : Nat) : stack.slots.size ≤ (stack.ensure size).slots.size := by
  rw [ensure]
  split
  · simp only [size_extend]
    omega
  · exact Nat.le_refl _

theorem size_le_size_setSp (sp : Nat) : stack.slots.size ≤ (stack.setSp sp).slots.size := by
  rw [setSp]
  split
  · exact Nat.le_refl _
  · exact stack.size_le_size_ensure sp

/-- Whether no slot at or above the top is tagged. -/
def Trim : Prop := ∀ index, stack.sp ≤ index → stack.isRef index = false

variable {stack}

/-- What is written stands below the new top. -/
theorem Trim.overwrite (trim : stack.Trim) (start : Nat) (cells : List TaggedSlot) :
    (stack.overwrite start cells).Trim := by
  intro index above
  have above : max stack.sp (start + cells.length) ≤ index := above
  have same := cell_writeCells_of_le stack (Nat.le_trans (Nat.le_max_right ..) above)
  exact (congrArg Prod.snd same).trans (trim index (Nat.le_trans (Nat.le_max_left ..) above))

/-- The tags of the slots given up are erased. -/
theorem Trim.setSp (trim : stack.Trim) (sp : Nat) : (stack.setSp sp).Trim := by
  intro index above
  rw [sp_setSp] at above
  rw [← snd_cell, cell_setSp]
  split
  next => rfl
  next outside => exact trim index (by omega)

/-- The references of the stack are those in the tagged cells of its list, in their order. -/
theorem refs_eq_filterMap_toList :
    stack.refs 0 stack.sp = stack.toList.filterMap TaggedSlot.held? := by
  rw [refs_eq, toList, cells_eq_map, List.filterMap_map, Nat.sub_zero, ← List.range_eq_range']
  congr 1
  funext index
  rw [Function.comp_apply, Nat.zero_add]
  rfl

end

/-! ## Writing and rearranging -/

section

variable {stack : Stack}

theorem pushValue_eq_overwrite (value : Value) :
    stack.pushValue value = stack.overwrite stack.sp value.cells := by
  rw [pushValue_eq, overwrite, Nat.max_eq_right (Nat.le_add_right ..), Value.length_cells]

/-- A write below the top leaves the top. -/
theorem writeCells_eq_overwrite (start : Nat) (cells : List TaggedSlot)
    (inside : start + cells.length ≤ stack.sp) :
    stack.writeCells start cells = stack.overwrite start cells := by
  rw [overwrite, Nat.max_eq_left inside, ← sp_writeCells stack start cells]

theorem swap_eq (enough : 2 ≤ stack.sp) :
    stack.swap = stack.overwrite (stack.sp - 2)
      [stack.cell (stack.sp - 1), stack.cell (stack.sp - 2)] := by
  rw [swap, if_neg (Nat.not_lt_of_le enough)]
  exact writeCells_eq_overwrite _ [_, _] (Nat.le_of_eq (Nat.sub_add_cancel enough))

/-- Whether a stack has the top and the cells of another one, and room for them. -/
structure Shows (after shown : Stack) : Prop where
  sp : after.sp = shown.sp
  cell : ∀ index, after.cell index = shown.cell index
  room : shown.sp ≤ shown.slots.size → after.sp ≤ after.slots.size

theorem Shows.of_eq {other : Stack} (same : stack = other) : stack.Shows other :=
  same ▸ ⟨rfl, fun _ => rfl, id⟩

theorem Shows.toList {shown : Stack} (shows : stack.Shows shown) : stack.toList = shown.toList := by
  rw [Stack.toList, Stack.toList, shows.sp]
  exact cells_congr fun index _ _ => shows.cell index

theorem size_le_size_moveUp (start distance count : Nat) :
    stack.slots.size ≤ (stack.moveUp start distance count).slots.size := by
  induction count generalizing stack with
  | zero => exact Nat.le_refl _
  | succ count ih => exact Nat.le_trans (stack.size_le_size_write ..) ih

/-- The copied slots stand below those that are skipped, and above them as before. -/
theorem shows_dup {count skip : Nat} (enough : count + skip ≤ stack.sp) :
    (stack.dup count skip).Shows (stack.overwrite (stack.sp - (count + skip))
      (stack.cells (stack.sp - count) count ++ stack.cells (stack.sp - (count + skip)) skip ++
        stack.cells (stack.sp - count) count)) := by
  obtain ⟨base, height⟩ := Nat.exists_eq_add_of_le enough
  have start : stack.sp - (count + skip) = base := by omega
  have upper : stack.sp - count = base + skip := by omega
  rw [start, upper, dup, if_neg (Nat.not_lt_of_le enough), start, upper, List.append_assoc,
    ← cells_add, Nat.add_comm skip count]
  refine ⟨?_, fun index => ?_, fun _ => ?_⟩
  · simp only [overwrite, sp_writeCells, sp_moveUp, sp_ensure, List.length_append, length_cells]
    omega
  · change (((stack.ensure (stack.sp + count)).moveUp base count (count + skip)).writeCells base
      (stack.cells (base + skip) count)).cell index = (stack.writeCells base _).cell index
    rw [cell_writeCells, cell_writeCells, cell_moveUp, cell_ensure, cell_ensure]
    by_cases inside : base ≤ index
    · rw [if_pos inside, if_pos inside, List.getElem?_append, length_cells, getElem?_cells,
        getElem?_cells]
      by_cases copied : index - base < count
      · rw [if_pos copied, if_pos copied]
        rfl
      · have source : base + (index - base - count) = index - count := by omega
        have bounds : base + count ≤ index ∧ index < base + count + (count + skip) ↔
            index - base - count < count + skip := by omega
        rw [if_neg copied, if_neg copied, source]
        simp only [bounds]
        split <;> rfl
    · rw [if_neg inside, if_neg inside, if_neg (by omega)]
  · simp only [sp_writeCells, sp_moveUp, sp_ensure]
    refine Nat.le_trans (stack.le_size_slots_ensure (stack.sp + count)) ?_
    exact Nat.le_trans (size_le_size_moveUp ..) (size_le_size_writeCells ..)

end

/-! ## One operation -/

section

variable {stack : Stack} {step : Edit}

/-- An operation that finds its operands writes cells from a place up to the top on, or lowers
the top. -/
theorem edit_cases (enough : step.needs ≤ stack.sp) :
    (∃ start ≤ stack.sp, ∃ cells, (stack.edit step).2.Shows (stack.overwrite start cells)) ∨
      ∃ sp ≤ stack.sp, (stack.edit step).2 = stack.setSp sp := by
  have pushed (value : Value) : ∃ start ≤ stack.sp, ∃ cells,
      (stack.pushValue value).Shows (stack.overwrite start cells) :=
    ⟨stack.sp, Nat.le_refl _, value.cells, .of_eq (pushValue_eq_overwrite value)⟩
  have written (index : Nat) (cells : List TaggedSlot) (inside : index + cells.length ≤ stack.sp) :
      ∃ start ≤ stack.sp, ∃ others,
        (stack.writeCells index cells).Shows (stack.overwrite start others) :=
    ⟨index, Nat.le_of_add_right_le inside, cells, .of_eq (writeCells_eq_overwrite index cells inside)⟩
  cases step with
  | push slot => exact .inl (pushed (.float slot))
  | pushWide bits => exact .inl (pushed (.double bits))
  | pushRef ref => exact .inl (pushed (.ref ref))
  | pop | popWide | popRef | discard => exact .inr ⟨_, Nat.sub_le .., rfl⟩
  | lower sp => exact .inr ⟨sp, enough, rfl⟩
  | dup count skip => exact .inl ⟨_, Nat.sub_le .., _, shows_dup enough⟩
  | swap => exact .inl ⟨_, Nat.sub_le .., _, .of_eq (swap_eq enough)⟩
  | increment index delta => exact .inl (written index [(_, false)] enough)
  | store index slot => exact .inl (written index [(slot, false)] enough)
  | storeWide index bits => exact .inl (written index [(_, false), (_, false)] enough)
  | storeRef index ref => exact .inl (written index [(_, true)] enough)

/-- The slots below the top stay inside the array. -/
theorem room_edit (room : stack.sp ≤ stack.slots.size) (enough : step.needs ≤ stack.sp) :
    (stack.edit step).2.sp ≤ (stack.edit step).2.slots.size := by
  obtain ⟨start, inside, cells, after⟩ | ⟨sp, lower, after⟩ := edit_cases enough
  · refine after.room ?_
    exact Nat.max_le_of_le_of_le (Nat.le_trans room (stack.size_le_size_writeCells start cells))
      (stack.le_size_writeCells (Nat.le_trans inside room) cells)
  · rw [after, sp_setSp]
    exact Nat.le_trans (Nat.le_trans lower room) (stack.size_le_size_setSp sp)

theorem Trim.edit (trim : stack.Trim) (enough : step.needs ≤ stack.sp) :
    (stack.edit step).2.Trim := by
  obtain ⟨start, _, cells, after⟩ | ⟨sp, _, after⟩ := edit_cases enough
  · intro index above
    rw [← snd_cell, after.cell]
    exact trim.overwrite start cells index (after.sp ▸ above)
  · rw [after]
    exact trim.setSp sp

/-! ### Refinement -/

theorem turns_lower {sp : Nat} (lower : sp ≤ stack.sp) :
    (Edit.lower sp).Turns stack.toList .nothing (stack.setSp sp).toList := by
  have turns := Edit.Turns.lower (stack.cells 0 sp) (stack.cells sp (stack.sp - sp))
  rw [length_cells, ← toList_eq_append stack lower] at turns
  rw [toList_setSp_eq_cells]
  exact turns

theorem turns_discard {count : Nat} (enough : count ≤ stack.sp) :
    (Edit.discard count).Turns stack.toList .nothing (stack.discard count).toList := by
  have turns := Edit.Turns.discard (stack.cells 0 (stack.sp - count))
    (stack.cells (stack.sp - count) count)
  rw [length_cells, ← toList_eq_append_top stack enough] at turns
  rw [discard, toList_setSp_eq_cells]
  exact turns

theorem turns_pop (enough : 1 ≤ stack.sp) :
    Edit.pop.Turns stack.toList (.slot stack.pop.1) stack.pop.2.toList := by
  have turns := Edit.Turns.pop (stack.cells 0 (stack.sp - 1)) (stack.cell (stack.sp - 1))
  rw [← cells_one, ← toList_eq_append_top stack enough] at turns
  rw [pop, toList_setSp_eq_cells]
  exact turns

theorem turns_popRef (enough : 1 ≤ stack.sp) :
    Edit.popRef.Turns stack.toList (.ref stack.popRef.1) stack.popRef.2.toList := by
  have turns := Edit.Turns.popRef (stack.cells 0 (stack.sp - 1)) (stack.cell (stack.sp - 1))
  rw [← cells_one, ← toList_eq_append_top stack enough] at turns
  rw [popRef, pop, toList_setSp_eq_cells]
  exact turns

/-- The two halves are read where the array has them both. -/
theorem turns_popWide (room : stack.sp ≤ stack.slots.size) (enough : 2 ≤ stack.sp) :
    Edit.popWide.Turns stack.toList (.wide stack.popWide.1) stack.popWide.2.toList := by
  have inside : stack.sp - 2 + 1 < stack.slots.size := by omega
  have turns := Edit.Turns.popWide (stack.cells 0 (stack.sp - 2)) (stack.cell (stack.sp - 2))
    (stack.cell (stack.sp - 2 + 1))
  rw [← cells_two, ← toList_eq_append_top stack enough] at turns
  rw [popWide, toList_setSp_eq_cells, rawWide, if_pos inside]
  exact turns

theorem turns_swap (enough : 2 ≤ stack.sp) :
    Edit.swap.Turns stack.toList .nothing stack.swap.toList := by
  have upper : stack.sp - 2 + 1 = stack.sp - 1 := by omega
  have turns := Edit.Turns.swap (stack.cells 0 (stack.sp - 2)) (stack.cell (stack.sp - 2))
    (stack.cell (stack.sp - 2 + 1))
  rw [← cells_two, ← toList_eq_append_top stack enough, upper] at turns
  rw [swap_eq enough, toList_overwrite_of_le stack (Nat.le_of_eq (Nat.sub_add_cancel enough).symm)]
  exact turns

theorem turns_dup {count skip : Nat} (enough : count + skip ≤ stack.sp) :
    (Edit.dup count skip).Turns stack.toList .nothing (stack.dup count skip).toList := by
  have place : stack.sp - (count + skip) + skip = stack.sp - count := by omega
  have turns := Edit.Turns.dup (stack.cells 0 (stack.sp - (count + skip)))
    (stack.cells (stack.sp - (count + skip)) skip) (stack.cells (stack.sp - count) count)
  have around : stack.toList = stack.cells 0 (stack.sp - (count + skip)) ++
      stack.cells (stack.sp - (count + skip)) skip ++ stack.cells (stack.sp - count) count := by
    rw [toList_eq_append_top stack enough, Nat.add_comm count skip, cells_add,
      Nat.add_comm skip count, place, List.append_assoc]
  rw [length_cells, length_cells, ← around] at turns
  rw [(shows_dup enough).toList, toList_overwrite_of_le]
  · simpa only [List.append_assoc] using turns
  · simp only [List.length_append, length_cells]
    omega

theorem toList_write {index : Nat} (inside : index + 1 ≤ stack.sp) (slot : Slot) (isRef : Bool) :
    (stack.write index slot isRef).toList = stack.cells 0 index ++ [(slot, isRef)] ++
      stack.cells (index + 1) (stack.sp - (index + 1)) := by
  have written : stack.write index slot isRef = stack.overwrite index [(slot, isRef)] :=
    writeCells_eq_overwrite index [(slot, isRef)] inside
  rw [written, toList_overwrite]
  rfl

theorem toList_setRawWide {index : Nat} (inside : index + 2 ≤ stack.sp) (bits : UInt64) :
    (stack.setRawWide index bits).toList =
      stack.cells 0 index ++ [(Slots.low bits, false), (Slots.high bits, false)] ++
        stack.cells (index + 2) (stack.sp - (index + 2)) := by
  have written : stack.setRawWide index bits =
      stack.overwrite index [(Slots.low bits, false), (Slots.high bits, false)] :=
    writeCells_eq_overwrite index [(_, false), (_, false)] inside
  rw [written, toList_overwrite]
  rfl

/-- Every operation on a stack that finds its operands is the one on its list. -/
theorem turns_edit (room : stack.sp ≤ stack.slots.size) (enough : step.needs ≤ stack.sp) :
    step.Turns stack.toList (stack.edit step).1 (stack.edit step).2.toList := by
  cases step with
  | push slot =>
      have turns := Edit.Turns.push stack.toList slot
      have appended : (stack.push slot).toList = stack.toList ++ [(slot, false)] :=
        stack.toList_pushValue (.float slot)
      rw [← appended] at turns
      exact turns
  | pushWide bits =>
      have turns := Edit.Turns.pushWide stack.toList bits
      have appended : (stack.pushWide bits).toList =
          stack.toList ++ [(Slots.low bits, false), (Slots.high bits, false)] :=
        stack.toList_pushValue (.double bits)
      rw [← appended] at turns
      exact turns
  | pushRef ref =>
      have turns := Edit.Turns.pushRef stack.toList ref
      have appended : (stack.pushRef ref).toList = stack.toList ++ [(Ref.toSlot ref, true)] :=
        stack.toList_pushValue (.ref ref)
      rw [← appended] at turns
      exact turns
  | pop => exact turns_pop enough
  | popWide => exact turns_popWide room enough
  | popRef => exact turns_popRef enough
  | discard count => exact turns_discard enough
  | lower sp => exact turns_lower enough
  | dup count skip => exact turns_dup enough
  | swap => exact turns_swap enough
  | increment index delta =>
      have turns := Edit.Turns.increment (stack.cells 0 index)
        (stack.cells (index + 1) (stack.sp - (index + 1))) (stack.cell index) delta
      rw [length_cells, ← cells_one, ← toList_eq_around stack enough,
        ← toList_write enough] at turns
      exact turns
  | store index slot =>
      have turns := Edit.Turns.store (stack.cells 0 index)
        (stack.cells (index + 1) (stack.sp - (index + 1))) (stack.cell index) slot
      rw [length_cells, ← cells_one, ← toList_eq_around stack enough,
        ← toList_write enough] at turns
      exact turns
  | storeWide index bits =>
      have turns := Edit.Turns.storeWide (stack.cells 0 index)
        (stack.cells (index + 2) (stack.sp - (index + 2))) (stack.cell index)
        (stack.cell (index + 1)) bits
      rw [length_cells, ← cells_two, ← toList_eq_around stack enough,
        ← toList_setRawWide enough] at turns
      exact turns
  | storeRef index ref =>
      have turns := Edit.Turns.storeRef (stack.cells 0 index)
        (stack.cells (index + 1) (stack.sp - (index + 1))) (stack.cell index) ref
      rw [length_cells, ← cells_one, ← toList_eq_around stack enough,
        ← toList_write enough] at turns
      exact turns

end

/-! ## Sequences of operations -/

section

variable {stack : Stack}

/-- A pushed wide value is popped with the bits it had. -/
theorem popWide_pushWide (bits : UInt64) : (stack.pushWide bits).popWide.1 = bits := by
  have low := congrArg Prod.fst (stack.cell_pushValue stack.sp (.double bits))
  have high := congrArg Prod.fst (stack.cell_pushValue (stack.sp + 1) (.double bits))
  simp only [fst_cell, Nat.le_refl, Nat.le_add_right, if_true, Nat.sub_self,
    Nat.add_sub_cancel_left] at low high
  have inside : stack.sp + 1 < (stack.pushWide bits).slots.size :=
    lt_size_write (stack.setRaw stack.sp (Slots.low bits)) (stack.sp + 1) (Slots.high bits) false
  have place : (stack.pushWide bits).sp - 2 = stack.sp :=
    Nat.sub_eq_of_eq_add (sp_pushValue stack (.double bits))
  calc (stack.pushWide bits).popWide.1
      = (stack.pushWide bits).rawWide stack.sp := by rw [popWide, place]
    _ = Slots.wide (Slots.low bits) (Slots.high bits) := by
      rw [rawWide, if_pos inside]
      exact congr (congrArg Slots.wide low) high
    _ = bits := Slots.wide_low_high bits

theorem Trim.editAll {steps : List Edit} (trim : stack.Trim) (enough : stack.Affords steps) :
    (stack.editAll steps).2.Trim := by
  induction steps generalizing stack with
  | nil => exact trim
  | cons step steps ih => exact ih (trim.edit enough.1) enough.2

theorem turnsAll_editAll {steps : List Edit} (room : stack.sp ≤ stack.slots.size)
    (enough : stack.Affords steps) :
    TurnsAll steps stack.toList (stack.editAll steps).1 (stack.editAll steps).2.toList := by
  induction steps generalizing stack with
  | nil => exact .nil _
  | cons step steps ih =>
      exact .cons (turns_edit room enough.1) (ih (room_edit room enough.1) enough.2)

/-- A sequence of operations that never underflows does to a stack what it does to the list of
its tagged slots, and answers the same. Afterwards, the list is as long as the top is high, and
the references of the stack are the non-null ones of its tagged slots in their order. No slot at
or above the top is tagged unless one was before. A wide value takes two untagged slots and is
popped with its bits. The tags behind all this are a set of indices: each index is added and
removed by itself, and those of a range are listed in their order. -/
theorem editAll_refines_list (stack : Stack) (steps : List Edit)
    (room : stack.sp ≤ stack.slots.size) (enough : stack.Affords steps) :
    TurnsAll steps stack.toList (stack.editAll steps).1 (stack.editAll steps).2.toList ∧
      (stack.editAll steps).2.toList.length = (stack.editAll steps).2.sp ∧
      (stack.editAll steps).2.refs 0 (stack.editAll steps).2.sp =
        (stack.editAll steps).2.toList.filterMap TaggedSlot.held? ∧
      (stack.Trim → (stack.editAll steps).2.Trim) ∧
      (∀ bits, ((stack.editAll steps).2.pushWide bits).toList =
          (stack.editAll steps).2.toList ++ [(Slots.low bits, false), (Slots.high bits, false)] ∧
        ((stack.editAll steps).2.pushWide bits).popWide.1 = bits) ∧
      ∀ indices : IndexSet,
        (∀ index other isMember, (indices.set index isMember).contains other =
          if other = index then isMember else indices.contains other) ∧
        (∀ start finish other, (indices.eraseRange start finish).contains other =
          (indices.contains other && !(decide (start ≤ other) && decide (other < finish)))) ∧
        ∀ start finish, indices.members start finish =
          (List.range' start (finish - start)).filter indices.contains := by
  have wide (bits : UInt64) : ((stack.editAll steps).2.pushWide bits).toList =
      (stack.editAll steps).2.toList ++ [(Slots.low bits, false), (Slots.high bits, false)] :=
    toList_pushValue _ (.double bits)
  exact ⟨turnsAll_editAll room enough, length_toList _, refs_eq_filterMap_toList,
    fun trim => trim.editAll enough, fun bits => ⟨wide bits, popWide_pushWide bits⟩,
    fun indices => ⟨fun index other => indices.contains_set index other,
      fun start finish other => indices.contains_eraseRange other start finish,
      indices.members_eq⟩⟩

/-- An `int`, a reference and a `long` are pushed; the `long` is copied below the others and
popped, the two slots below it change places, and the reference is popped. -/
theorem editAll_refines_list_ofLimit :
    TurnsAll [.push 7, .pushRef (Ref.ofSlot 3), .pushWide 0x500000006, .dup 2 2, .popWide, .swap,
        .popRef] []
      [.nothing, .nothing, .nothing, .nothing, .wide 0x500000006, .nothing, .ref (Ref.ofSlot 7)]
      [(6, false), (5, false), (3, true)] :=
  (editAll_refines_list (ofLimit 16)
    [.push 7, .pushRef (Ref.ofSlot 3), .pushWide 0x500000006, .dup 2 2, .popWide, .swap, .popRef]
    (by decide) (by decide)).1

end

end Stack

/-! ## Loads and stores -/

/-- Cells as they arrive when they are moved. -/
def Transfer.arrive (transfer : Transfer) (cells : List TaggedSlot) : List TaggedSlot :=
  cells.map fun cell => (cell.1, transfer = .reference)

@[simp] theorem Transfer.length_arrive (transfer : Transfer) (cells : List TaggedSlot) :
    (transfer.arrive cells).length = cells.length :=
  List.length_map _

namespace Stack

variable {stack : Stack}

/-! ### Parts of the list -/

/-- The cells in the middle of the list. -/
theorem cells_of_toList (first middle last : List TaggedSlot)
    (whole : stack.toList = first ++ middle ++ last) :
    stack.cells 0 first.length = first ∧
      stack.cells first.length middle.length = middle ∧
        stack.cells (first.length + middle.length) last.length = last := by
  have size : stack.sp = first.length + middle.length + last.length := by
    rw [← length_toList stack, whole, List.length_append, List.length_append]
  have inside : first.length + middle.length ≤ stack.sp := by omega
  have around := toList_eq_around stack inside
  rw [whole, show stack.sp - (first.length + middle.length) = last.length by omega] at around
  obtain ⟨both, behind⟩ := List.append_inj around.symm (by simp)
  obtain ⟨before, between⟩ := List.append_inj both (by simp)
  exact ⟨before, between, behind⟩

/-- Written cells replace the cells in the middle of the list. -/
theorem toList_writeCells_of_toList {first middle last : List TaggedSlot}
    (whole : stack.toList = first ++ middle ++ last) (cells : List TaggedSlot)
    (same : cells.length = middle.length) :
    (stack.writeCells first.length cells).toList = first ++ cells ++ last := by
  have size : stack.sp = first.length + middle.length + last.length := by
    rw [← length_toList stack, whole, List.length_append, List.length_append]
  obtain ⟨before, -, behind⟩ := cells_of_toList _ _ _ whole
  rw [writeCells_eq_overwrite _ _ (by omega), toList_overwrite, before, same,
    show stack.sp - (first.length + middle.length) = last.length by omega, behind]

/-- Lowering the top cuts the end off the list. -/
theorem toList_setSp_of_toList {first last : List TaggedSlot} (whole : stack.toList = first ++ last) :
    (stack.setSp first.length).toList = first := by
  rw [toList_setSp_eq_cells]
  exact (cells_of_toList first [] last (by rw [List.append_nil, whole])).1

/-! ### Moving -/

/-- A load copies the slots of the local. -/
theorem toList_load (transfer : Transfer) {slot : Nat}
    (inside : slot + transfer.slots ≤ stack.slots.size) :
    (stack.load transfer slot).toList =
      stack.toList ++ transfer.arrive (stack.cells slot transfer.slots) := by
  cases transfer with
  | single => exact stack.toList_pushValue (.float (stack.raw slot))
  | double =>
      have both : slot + 1 < stack.slots.size := inside
      have pushed := stack.toList_pushValue (.double (stack.rawWide slot))
      rw [Value.cells, rawWide, if_pos both, Slots.low_wide, Slots.high_wide] at pushed
      rw [load, rawWide, if_pos both]
      exact pushed
  | reference =>
      have pushed := stack.toList_pushValue (.ref (stack.loadRef slot))
      rw [Value.cells, loadRef, Ref.toSlot_ofSlot] at pushed
      exact pushed

/-- A store lowers the top and writes what was above it to the local. -/
theorem store_eq (transfer : Transfer) (slot : Nat) (enough : transfer.slots ≤ stack.sp)
    (room : stack.sp ≤ stack.slots.size) :
    stack.store transfer slot = (stack.setSp (stack.sp - transfer.slots)).writeCells slot
      (transfer.arrive (stack.cells (stack.sp - transfer.slots) transfer.slots)) := by
  cases transfer with
  | single => rfl
  | double =>
      have inside : stack.sp - 2 + 1 < stack.slots.size := by
        rw [Transfer.slots] at enough
        omega
      simp only [store, popWide, rawWide, if_pos inside, setRawWide, Slots.low_wide,
        Slots.high_wide]
      rfl
  | reference =>
      simp only [store, popRef, pop, storeRef, Ref.toSlot_ofSlot]
      rfl

section

variable {first middle last moved : List TaggedSlot}

/-- What a load makes of the list. -/
theorem toList_load_of_toList (transfer : Transfer)
    (whole : stack.toList = first ++ middle ++ last) (width : middle.length = transfer.slots)
    (room : stack.sp ≤ stack.slots.size) :
    (stack.load transfer first.length).toList =
      first ++ middle ++ last ++ transfer.arrive middle := by
  have size : stack.sp = first.length + middle.length + last.length := by
    rw [← length_toList stack, whole, List.length_append, List.length_append]
  rw [toList_load transfer (by omega), ← width, (cells_of_toList _ _ _ whole).2.1, whole]

/-- What a store makes of the list. -/
theorem toList_store_of_toList (transfer : Transfer)
    (whole : stack.toList = first ++ middle ++ last ++ moved)
    (width : middle.length = transfer.slots) (same : moved.length = transfer.slots)
    (room : stack.sp ≤ stack.slots.size) :
    (stack.store transfer first.length).toList = first ++ transfer.arrive moved ++ last := by
  have size : stack.sp = (first ++ middle ++ last).length + moved.length := by
    rw [← length_toList stack, whole, List.length_append]
  have kept : stack.sp - transfer.slots = (first ++ middle ++ last).length := by omega
  have top := (cells_of_toList _ moved [] (by rw [List.append_nil, whole])).2.1
  rw [store_eq transfer _ (by omega) room, kept, ← same, top]
  exact toList_writeCells_of_toList (toList_setSp_of_toList whole) _
    (by rw [Transfer.length_arrive, same, width])

/-- What an increment makes of the list. -/
theorem toList_increment_of_toList {old : TaggedSlot} (delta : Int32)
    (whole : stack.toList = first ++ [old] ++ last) :
    (stack.increment first.length delta).toList =
      first ++ [(old.1 + delta.toUInt32, false)] ++ last := by
  have held : [stack.cell first.length] = [old] := (cells_of_toList _ _ _ whole).2.1
  obtain rfl := List.singleton_inj.mp held
  exact toList_writeCells_of_toList whole [(stack.raw first.length + delta.toUInt32, false)] rfl

end

/-! ### Room -/

section

variable (room : stack.sp ≤ stack.slots.size)

include room

theorem room_pushValue (value : Value) :
    (stack.pushValue value).sp ≤ (stack.pushValue value).slots.size := by
  rw [sp_pushValue, pushValue_eq, ← value.length_cells]
  exact stack.le_size_writeCells room value.cells

theorem room_load (transfer : Transfer) (slot : Nat) :
    (stack.load transfer slot).sp ≤ (stack.load transfer slot).slots.size := by
  cases transfer with
  | single => exact room_pushValue room (.float (stack.raw slot))
  | double => exact room_pushValue room (.double (stack.rawWide slot))
  | reference => exact room_pushValue room (.ref (stack.loadRef slot))

theorem room_store (transfer : Transfer) (slot : Nat) (enough : transfer.slots ≤ stack.sp) :
    (stack.store transfer slot).sp ≤ (stack.store transfer slot).slots.size := by
  rw [store_eq transfer slot enough room, sp_writeCells, sp_setSp]
  exact Nat.le_trans (Nat.le_trans (Nat.sub_le ..) room)
    (Nat.le_trans (stack.size_le_size_setSp _) (size_le_size_writeCells _ slot _))

theorem room_increment (slot : Nat) (delta : Int32) :
    (stack.increment slot delta).sp ≤ (stack.increment slot delta).slots.size := by
  rw [increment, sp_setRaw]
  exact Nat.le_trans room (stack.size_le_size_write slot _ false)

end

end Stack

end Jvm
