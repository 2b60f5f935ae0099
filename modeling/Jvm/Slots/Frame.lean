import Jvm.Slots.Stack

/-!
# Frames

A call saves four slots below the locals of the callee: the caller's method, the
pc of the call, the pc to return to and the slot below the caller's locals. The
chain of live frames is read back from these slots alone. Slot positions are
64-bit numbers, and a saved position is a signed slot.
-/

namespace Jvm

/-- The saved caller of a frame. Without a method, the caller is the host. -/
structure FrameContext where
  caller : Option MethodId
  callerPc : UInt32
  returnPc : UInt32
  callerStartSp : Nat
  deriving DecidableEq, Repr

namespace FrameContext

/-- Slots that a saved context takes. -/
def size : Nat := 4

/-- The slot that stands for the host as caller. -/
def hostSlot : Slot := 0xFFFFFFFF

/-- Where the context of the frame with this start lies. Positions below zero
are those of 64-bit arithmetic. -/
def base (startSp : Nat) : Nat :=
  if 3 ≤ startSp then startSp - 3 else startSp + (UInt64.size - 3)

/-- A slot of the context of a frame, by its place in the context. -/
def slot (stack : Stack) (startSp place : Nat) : Slot :=
  if 3 ≤ startSp + place then stack.raw (startSp + place - 3) else 0

/-- The position that a saved slot denotes. -/
def position (slot : Slot) : Nat :=
  if slot < 0x80000000 then slot.toNat else slot.toNat + (UInt64.size - UInt32.size)

/-- Saves a context from a slot on. -/
def write (context : FrameContext) (stack : Stack) (base : Nat) : Stack :=
  let caller := context.caller.elim hostSlot MethodId.toSlot
  (((stack.setRaw base caller).setRaw (base + 1) context.callerPc).setRaw (base + 2)
    context.returnPc).setRaw (base + 3) (UInt32.ofNat context.callerStartSp)

/-- Reads the context of the frame with this start. -/
def read (stack : Stack) (startSp : Nat) : FrameContext :=
  { caller := MethodId.ofSlot (slot stack startSp 0)
    callerPc := slot stack startSp 1
    returnPc := slot stack startSp 2
    callerStartSp := position (slot stack startSp 3) }

end FrameContext

/-- One live frame. `pc` is that of the current instruction, or of the pending
call for a caller; `top` is the end of the frame's slots. -/
structure Frame where
  method : MethodId
  pc : UInt32
  startSp : Nat
  top : Nat
  deriving DecidableEq, Repr

namespace Frame

/-- The frame's first local. -/
def locals (frame : Frame) : Nat := frame.startSp + 1

/-- The frame that called a frame. A saved start that does not lie below ends
the chain. -/
def caller? (stack : Stack) (frame : Frame) : Option Frame :=
  let context := FrameContext.read stack frame.startSp
  if context.callerStartSp < frame.startSp then
    context.caller.map fun method =>
      { method
        pc := context.callerPc
        startSp := context.callerStartSp
        top := FrameContext.base frame.startSp }
  else
    none

theorem startSp_of_caller? {stack : Stack} {frame caller : Frame}
    (calls : frame.caller? stack = some caller) : caller.startSp < frame.startSp := by
  simp only [caller?] at calls
  split at calls
  · next below =>
    simp only [Option.map_eq_some_iff] at calls
    obtain ⟨_, _, rfl⟩ := calls
    exact below
  · cases calls

/-- A frame and its callers, innermost first. -/
def chain (stack : Stack) (frame : Frame) : List Frame :=
  match _calls : frame.caller? stack with
  | none => [frame]
  | some caller => frame :: chain stack caller
termination_by frame.startSp
decreasing_by exact startSp_of_caller? _calls

theorem chain_of_host (stack : Stack) {frame : Frame} (last : frame.caller? stack = none) :
    frame.chain stack = [frame] := by
  rw [chain]
  split
  · rfl
  · next found => cases last.symm.trans found

theorem chain_of_caller (stack : Stack) {frame caller : Frame}
    (calls : frame.caller? stack = some caller) :
    frame.chain stack = frame :: caller.chain stack := by
  rw [chain]
  split
  · next last => cases last.symm.trans calls
  · next found =>
      cases found.symm.trans calls
      rfl

/-- The frames of an execution with this current method, pc and frame start. -/
def all (stack : Stack) (method : Option MethodId) (pc : UInt32) (startSp : Nat) : List Frame :=
  match method with
  | none => []
  | some method => chain stack { method, pc, startSp, top := stack.sp }

end Frame

end Jvm
