import Jvm.Proofs.Slots.Frame
import Jvm.Proofs.Slots.Operands
import Jvm.Registry.Basic

/-!
# Frames tile the stack

The frames of an execution lie one above the other, from the bottom of its stack
to the top: each of them ends where the context of the next one begins. The chain
of saved contexts gives them back, and the references below the top are those in
their locals and operands. Whatever a stack holds, a walk along the chain goes
strictly down and so comes to an end.
-/

namespace Jvm

/-- A call that has not returned: its method, the slot from which its frame lies on
the stack, and what it saved of its caller. -/
structure PendingCall where
  method : MethodId
  base : Nat
  context : FrameContext
  deriving DecidableEq

namespace PendingCall

def startSp (call : PendingCall) : Nat := call.base + 3

/-- The first local of the call. -/
def locals (call : PendingCall) : Nat := call.base + FrameContext.size

@[simp] theorem base_startSp (call : PendingCall) : FrameContext.base call.startSp = call.base := by
  rw [FrameContext.base, startSp, if_pos (Nat.le_add_left 3 _), Nat.add_sub_cancel]

/-- Where the innermost of some calls starts. The host has no frame. -/
def startOf (calls : List PendingCall) : Nat := calls.head?.elim 0 startSp

/-- The frames of pending calls, innermost first. A caller is at the pc that its
callee has saved, and ends where the frame of its callee begins. -/
def frames : List PendingCall → UInt32 → Nat → List Frame
  | [], _, _ => []
  | call :: callers, pc, top =>
    { method := call.method, pc, startSp := call.startSp, top } ::
      frames callers call.context.callerPc call.base

end PendingCall

/-- Slots that the operands of a method may take. -/
def Method.maxStack (method : Method) : Nat := method.code.elim 0 (·.maxStack.toNat)

/-! ## References in slots -/

namespace Stack

/-- The reference in a slot, unless it is null or the slot is not tagged. -/
def heldRef? (stack : Stack) (index : Nat) : Option Ref :=
  if stack.isRef index then stack.loadRef index else none

theorem heldRef?_of_scalar {stack : Stack} {index : Nat} (scalar : stack.isRef index = false) :
    stack.heldRef? index = none := by
  rw [heldRef?, scalar, if_neg Bool.false_ne_true]

theorem loadRef_of_size_le {stack : Stack} {index : Nat} (outside : stack.slots.size ≤ index) :
    stack.loadRef index = none := by
  rw [loadRef, raw, Array.getD_eq_getD_getElem?, Array.getElem?_eq_none outside]
  rfl

/-- A range that ends beyond the slots has no references there. -/
theorem filterMap_heldRef?_of_le {stack : Stack} {start finish : Nat}
    (beyond : ∀ index, finish ≤ index → stack.heldRef? index = none) (count : Nat) :
    (List.range' start count).filterMap stack.heldRef? =
      (List.range' start (min count (finish - start))).filterMap stack.heldRef? := by
  have parts : List.range' start count =
      List.range' start (min count (finish - start)) ++
        List.range' (start + min count (finish - start)) (count - (finish - start)) := by
    have sizes : count = min count (finish - start) + (count - (finish - start)) := by omega
    rw [List.range'_append_1, ← sizes]
  have rest : (List.range' (start + min count (finish - start))
      (count - (finish - start))).filterMap stack.heldRef? = [] := by
    rw [List.filterMap_eq_nil_iff]
    intro index member
    rw [List.mem_range'_1] at member
    exact beyond index (by omega)
  rw [parts, List.filterMap_append, rest, List.append_nil]

/-- The references of a range are those that its slots hold, one slot after the other. -/
theorem refs_eq (stack : Stack) (start finish : Nat) :
    stack.refs start finish =
      (List.range' start (finish - start)).filterMap stack.heldRef? := by
  have beyond : ∀ index, stack.slots.size ≤ index → stack.heldRef? index = none := by
    intro index outside
    rw [heldRef?, loadRef_of_size_le outside, ite_self]
  have count : min (finish - start) (stack.slots.size - start) =
      min finish stack.slots.size - start := by omega
  rw [filterMap_heldRef?_of_le beyond, count, refs, IndexSet.members_eq, List.filterMap_filter]
  rfl

/-- A call saves no references: the context of the new frame is untagged. -/
theorem isRef_enterFrame_context (stack : Stack) (context : FrameContext) {arguments locals : Nat}
    (claimed : arguments ≤ stack.sp) (covered : arguments ≤ locals) {index : Nat}
    (above : stack.sp - arguments ≤ index)
    (below : index < stack.sp - arguments + FrameContext.size) :
    (stack.enterFrame context arguments locals).isRef index = false := by
  have cell := cell_enterFrame stack context arguments locals index claimed covered
  rw [cell_zero, if_neg (by omega)] at cell
  have tag := congrArg Prod.snd cell
  rw [FrameContext.size] at below
  rw [snd_cell] at tag
  rw [tag]
  simp only [FrameContext.write, cell_setRaw]
  have cases : index = stack.sp - arguments + 3 ∨ index = stack.sp - arguments + 2 ∨
      index = stack.sp - arguments + 1 ∨ index = stack.sp - arguments := by
    omega
  rcases cases with rfl | rfl | rfl | rfl <;> simp

end Stack

/-! ## Walks along any chain -/

namespace Frame

/-- The slots of a frame: its context, its locals and its operands. -/
def span (frame : Frame) : List Nat :=
  List.range' (FrameContext.base frame.startSp) (frame.top - FrameContext.base frame.startSp)

/-- The references in the locals and the operands of a frame. -/
def refs (stack : Stack) (frame : Frame) : List Ref :=
  (List.range' frame.locals (frame.top - frame.locals)).filterMap stack.heldRef?

variable (stack : Stack) (frame : Frame)

theorem startSp_le_of_mem_chain {outer : Frame} (member : outer ∈ frame.chain stack) :
    outer.startSp ≤ frame.startSp := by
  induction frame using chain.induct stack with
  | case1 frame last =>
      rw [chain_of_host stack last, List.mem_singleton] at member
      exact member ▸ Nat.le_refl _
  | case2 frame caller calls ih =>
      rw [chain_of_caller stack calls, List.mem_cons] at member
      rcases member with rfl | member
      · exact Nat.le_refl _
      · exact Nat.le_trans (ih member) (Nat.le_of_lt (startSp_of_caller? calls))

/-- Each frame of a walk starts below the one before, whatever the stack holds. -/
theorem pairwise_chain :
    (frame.chain stack).Pairwise fun inner outer => outer.startSp < inner.startSp := by
  induction frame using chain.induct stack with
  | case1 frame last =>
      rw [chain_of_host stack last]
      exact List.pairwise_singleton _ _
  | case2 frame caller calls ih =>
      rw [chain_of_caller stack calls]
      refine .cons ?_ ih
      intro outer member
      exact Nat.lt_of_le_of_lt (startSp_le_of_mem_chain stack caller member)
        (startSp_of_caller? calls)

theorem length_chain_le : (frame.chain stack).length ≤ frame.startSp + 1 := by
  induction frame using chain.induct stack with
  | case1 frame last =>
      rw [chain_of_host stack last]
      exact Nat.le_add_left 1 _
  | case2 frame caller calls ih =>
      rw [chain_of_caller stack calls, List.length_cons]
      have lower := startSp_of_caller? calls
      omega

end Frame

/-! ## Tilings -/

namespace PendingCall

variable (table : ClassTable) (call : PendingCall)

/-- The first operand of the call. -/
def floor : Nat := call.locals + (table.method call.method).frameLocals

/-- Where the operands of the call have to end. -/
def ceiling : Nat := call.floor table + (table.method call.method).maxStack

end PendingCall

namespace Stack

/-- Whether the frames of pending calls, innermost first, tile a stack up to a top. -/
inductive Tiles (stack : Stack) (table : ClassTable) : List PendingCall → Nat → Prop
  | bottom : Tiles stack table [] 0
  | frame {call : PendingCall} {callers : List PendingCall} {top : Nat}
      (below : Tiles stack table callers call.base)
      (saved : FrameContext.read stack call.startSp = call.context)
      (scalar : ∀ index, call.base ≤ index → index < call.locals → stack.isRef index = false)
      (caller : call.context.caller = callers.head?.map PendingCall.method)
      (start : call.context.callerStartSp = PendingCall.startOf callers)
      (covers : call.floor table ≤ top) (admitted : call.ceiling table ≤ stack.limit) :
      Tiles stack table (call :: callers) top

namespace Tiles

variable {stack other : Stack} {table after : ClassTable} {calls callers : List PendingCall}
  {call : PendingCall} {top : Nat}

/-- Without frames there are no slots. -/
theorem eq_zero (tiles : stack.Tiles table [] top) : top = 0 := by
  cases tiles
  rfl

theorem floor_le (tiles : stack.Tiles table (call :: callers) top) : call.floor table ≤ top := by
  cases tiles with
  | frame below saved scalar caller start covers admitted => exact covers

theorem locals_le (tiles : stack.Tiles table (call :: callers) top) :
    call.base + FrameContext.size ≤ top :=
  Nat.le_trans (Nat.le_add_right _ _) tiles.floor_le

/-- The frames below one start below its context. -/
theorem startOf_lt (tiles : stack.Tiles table calls top) :
    PendingCall.startOf calls < top + 3 := by
  cases calls with
  | nil => exact Nat.succ_pos _
  | cons inner callers =>
      have room := tiles.locals_le
      rw [FrameContext.size] at room
      change inner.base + 3 < top + 3
      omega

/-- The chain of contexts gives back the frames of the pending calls. -/
theorem chain_eq (tiles : stack.Tiles table (call :: callers) top) (pc : UInt32) :
    Frame.chain stack { method := call.method, pc, startSp := call.startSp, top } =
      PendingCall.frames (call :: callers) pc top := by
  induction callers generalizing call pc top with
  | nil =>
      cases tiles with
      | frame below saved scalar caller start covers admitted =>
          apply Frame.chain_of_host
          simp only [Frame.caller?, saved, caller, List.head?_nil, Option.map_none, ite_self]
  | cons outer callers ih =>
      cases tiles with
      | frame below saved scalar caller start covers admitted =>
          have lower := startOf_lt below
          have next : Frame.caller? stack
              { method := call.method, pc, startSp := call.startSp, top } = some
              { method := outer.method
                pc := call.context.callerPc
                startSp := outer.startSp
                top := call.base } := by
            simp only [Frame.caller?, saved, start, PendingCall.base_startSp, caller,
              List.head?_cons, Option.map_some]
            exact if_pos lower
          rw [Frame.chain_of_caller stack next, ih below]
          rfl

/-- The spans of the frames, outermost first, are the slots up to the top in order. -/
theorem flatMap_span (tiles : stack.Tiles table calls top) (pc : UInt32) :
    (PendingCall.frames calls pc top).reverse.flatMap Frame.span = List.range top := by
  induction tiles generalizing pc with
  | bottom => rfl
  | @frame call callers top below saved scalar caller start covers admitted ih =>
      have reached : call.base ≤ top := by
        apply Nat.le_trans _ covers
        exact Nat.le_trans (Nat.le_add_right _ _) (Nat.le_add_right _ _)
      rw [PendingCall.frames, List.reverse_cons, List.flatMap_append, ih, List.flatMap_singleton,
        Frame.span, PendingCall.base_startSp, List.range_eq_range', List.range_eq_range']
      have next := @List.range'_append_1 0 call.base (top - call.base)
      rw [Nat.zero_add, Nat.add_sub_cancel' reached] at next
      exact next

/-- Contexts hold no references, so that those of a frame's slots are in its locals
and operands. -/
theorem filterMap_span (tiles : stack.Tiles table calls top) (pc : UInt32) :
    ∀ frame ∈ PendingCall.frames calls pc top,
      frame.span.filterMap stack.heldRef? = frame.refs stack := by
  induction tiles generalizing pc with
  | bottom => exact fun frame member => absurd member List.not_mem_nil
  | @frame call callers top below saved scalar caller start covers admitted ih =>
      intro frame member
      rcases List.mem_cons.mp member with rfl | member
      · have base : FrameContext.base call.startSp = call.base := by
          rw [FrameContext.base, PendingCall.startSp, if_pos (Nat.le_add_left 3 _)]
          rfl
        have room : call.base + 4 ≤ top := Nat.le_trans (Nat.le_add_right _ _) covers
        have split : top - call.base = 4 + (top - (call.base + 4)) := by omega
        have context : (List.range' call.base 4).filterMap stack.heldRef? = [] := by
          rw [List.filterMap_eq_nil_iff]
          intro index inside
          rw [List.mem_range'_1] at inside
          exact heldRef?_of_scalar (scalar index inside.1 inside.2)
        simp only [Frame.span, Frame.refs, PendingCall.base_startSp, split]
        rw [← List.range'_append_1, List.filterMap_append, context, List.nil_append]
        rfl
      · exact ih _ frame member

/-- The references up to the top are those of the frames, outermost first. -/
theorem refs_eq (tiles : stack.Tiles table calls top) (pc : UInt32) :
    stack.refs 0 top =
      (PendingCall.frames calls pc top).reverse.flatMap (Frame.refs stack) := by
  rw [Stack.refs_eq, Nat.sub_zero, ← List.range_eq_range', ← tiles.flatMap_span pc,
    List.filterMap_flatMap, List.flatMap_def, List.flatMap_def]
  congr 1
  apply List.map_congr_left
  intro frame member
  exact tiles.filterMap_span pc frame (List.mem_reverse.mp member)

/-- Every frame has room for its locals below its top, and for its operands below the
limit. -/
theorem roomy (tiles : stack.Tiles table calls top) (pc : UInt32) :
    ∀ frame ∈ PendingCall.frames calls pc top,
      frame.locals + (table.method frame.method).frameLocals ≤ frame.top ∧
        frame.locals + (table.method frame.method).frameLocals +
          (table.method frame.method).maxStack ≤ stack.limit := by
  induction tiles generalizing pc with
  | bottom => exact fun frame member => absurd member List.not_mem_nil
  | @frame call callers top below saved scalar caller start covers admitted ih =>
      intro frame member
      rcases List.mem_cons.mp member with rfl | member
      · exact ⟨covers, admitted⟩
      · exact ih _ frame member

theorem top_le_of_mem (tiles : stack.Tiles table calls top) (pc : UInt32) :
    ∀ frame ∈ PendingCall.frames calls pc top, frame.top ≤ top := by
  induction tiles generalizing pc with
  | bottom => exact fun frame member => absurd member List.not_mem_nil
  | @frame call callers top below saved scalar caller start covers admitted ih =>
      intro frame member
      rcases List.mem_cons.mp member with rfl | member
      · exact Nat.le_refl _
      · have inside : call.base ≤ call.floor table :=
          Nat.le_trans (Nat.le_add_right _ _) (Nat.le_add_right _ _)
        exact Nat.le_trans (ih _ frame member) (Nat.le_trans inside covers)

/-- Every frame takes the slots of its context at least. -/
theorem size_mul_length_le (tiles : stack.Tiles table calls top) :
    FrameContext.size * calls.length ≤ top := by
  induction tiles with
  | bottom => exact Nat.le_refl 0
  | @frame call callers top below saved scalar caller start covers admitted ih =>
      have context : call.base + FrameContext.size ≤ top :=
        Nat.le_trans (Nat.le_add_right _ _) covers
      rw [List.length_cons, FrameContext.size] at *
      omega

/-- A frame that was called by another one has its context in the array: beyond it there
are zeros, and no caller starts at zero. -/
theorem base_lt_size {outer : PendingCall}
    (tiles : stack.Tiles table (call :: outer :: callers) top) :
    call.base < stack.slots.size := by
  apply Nat.lt_of_not_le
  intro outside
  cases tiles with
  | frame below saved scalar caller start covers admitted =>
      have beyond : stack.raw (call.base + 3) = 0 := by
        rw [raw, Array.getD_eq_getD_getElem?, Array.getElem?_eq_none (Nat.le_add_right_of_le outside)]
        rfl
      have slot : FrameContext.slot stack (call.base + 3) 3 = 0 :=
        (FrameContext.slot_add_three ..).trans beyond
      have zero : (FrameContext.read stack call.startSp).callerStartSp = 0 := by
        simp only [FrameContext.read, PendingCall.startSp, slot]
        rfl
      rw [saved, start] at zero
      exact Nat.succ_ne_zero (outer.base + 2) zero

/-- There are no more frames than slots, but for one. -/
theorem length_le (tiles : stack.Tiles table calls top) :
    calls.length ≤ stack.slots.size + 1 := by
  cases calls with
  | nil => exact Nat.zero_le _
  | cons call callers =>
      cases callers with
      | nil => exact Nat.le_add_left 1 _
      | cons outer callers =>
          have inside := tiles.base_lt_size
          cases tiles with
          | frame below saved scalar caller start covers admitted =>
              have many := below.size_mul_length_le
              rw [FrameContext.size] at many
              simp only [List.length_cons] at many ⊢
              omega

/-! ### Changes of the stack -/

/-- A tiling is a matter of the cells below its top. -/
theorem congr (tiles : stack.Tiles table calls top) (limit : other.limit = stack.limit)
    (same : ∀ index < top, other.cell index = stack.cell index) :
    other.Tiles table calls top := by
  induction tiles with
  | bottom => exact .bottom
  | @frame call callers top below saved scalar caller start covers admitted ih =>
      have locals : call.locals = call.base + 4 := rfl
      have floor : call.floor table = call.locals + _ := rfl
      refine .frame (ih fun index inside => same index (by omega)) ?_ ?_ caller start covers
        (limit ▸ admitted)
      · rw [← saved]
        apply FrameContext.read_congr
        intro index above inside
        rw [FrameContext.size] at inside
        exact raw_eq_of_cell_eq (same index (by omega))
      · intro index above inside
        have tag := congrArg Prod.snd (same index (by omega))
        exact tag.trans (scalar index above inside)

/-- The innermost frame may change at or above its first local, as long as its locals
stay. -/
theorem keep (tiles : stack.Tiles table (call :: callers) top)
    (limit : other.limit = stack.limit)
    (same : ∀ index < call.locals, other.cell index = stack.cell index) {top' : Nat}
    (covers : call.floor table ≤ top') : other.Tiles table (call :: callers) top' := by
  cases tiles with
  | frame below saved scalar caller start _ admitted =>
      have locals : call.locals = call.base + 4 := rfl
      refine .frame (below.congr limit fun index inside => same index (by omega)) ?_ ?_ caller start
        covers (limit ▸ admitted)
      · rw [← saved]
        apply FrameContext.read_congr
        intro index above inside
        exact raw_eq_of_cell_eq (same index inside)
      · intro index above inside
        have tag := congrArg Prod.snd (same index inside)
        exact tag.trans (scalar index above inside)

/-- A tiling asks of the classes only how many slots the pending methods take. -/
theorem of_sizes (tiles : stack.Tiles table calls top)
    (sizes : ∀ call ∈ calls,
      (after.method call.method).frameLocals = (table.method call.method).frameLocals ∧
        (after.method call.method).maxStack = (table.method call.method).maxStack) :
    stack.Tiles after calls top := by
  induction tiles with
  | bottom => exact .bottom
  | @frame call callers top below saved scalar caller start covers admitted ih =>
      obtain ⟨locals, operands⟩ := sizes call (.head _)
      refine .frame (ih fun call member => sizes call (.tail _ member)) saved scalar caller start
        ?_ ?_
      · rw [PendingCall.floor, locals]
        exact covers
      · rw [PendingCall.ceiling, PendingCall.floor, locals, operands]
        exact admitted

/-- A call whose arguments lie above the tiled part adds a tile. -/
theorem enter {arguments : Nat} {id : MethodId} {context : FrameContext}
    (tiles : stack.Tiles table calls (stack.sp - arguments)) (claimed : arguments ≤ stack.sp)
    (covered : arguments ≤ (table.method id).frameLocals) (encodable : context.Encodable)
    (caller : context.caller = calls.head?.map PendingCall.method)
    (start : context.callerStartSp = PendingCall.startOf calls)
    (admitted : stack.sp + FrameContext.size + ((table.method id).frameLocals - arguments) +
      (table.method id).maxStack ≤ stack.limit) :
    (stack.enterFrame context arguments (table.method id).frameLocals).Tiles table
      (⟨id, stack.sp - arguments, context⟩ :: calls)
      (stack.enterFrame context arguments (table.method id).frameLocals).sp := by
  have floor : PendingCall.floor table ⟨id, stack.sp - arguments, context⟩ =
      stack.sp - arguments + FrameContext.size + (table.method id).frameLocals := rfl
  have ceiling : PendingCall.ceiling table ⟨id, stack.sp - arguments, context⟩ =
      stack.sp - arguments + FrameContext.size + (table.method id).frameLocals +
        (table.method id).maxStack := rfl
  refine .frame (tiles.congr (limit_enterFrame ..) ?_) ?_ ?_ caller start ?_ ?_
  · intro index below
    exact stack.cell_enterFrame_of_lt _ _ _ index claimed covered below
  · rw [PendingCall.startSp, stack.read_enterFrame _ _ _ claimed covered, encodable.decoded_eq]
  · exact fun index above below =>
      isRef_enterFrame_context stack context claimed covered above below
  · exact Nat.le_of_eq (floor.trans (sp_enterFrame ..).symm)
  · rw [limit_enterFrame, ceiling]
    omega

end Tiles

end Stack

end Jvm
