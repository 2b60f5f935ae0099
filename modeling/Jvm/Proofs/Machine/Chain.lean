import Jvm.Proofs.Machine.Calls
import Jvm.Proofs.Registry.Closed
import Jvm.Proofs.Slots.Operands

/-!
# Chains of frames

The frames of an execution are held together by what each of them has saved of
its caller. A chain stands if every saved caller is a linked method whose frame
lies below, down to the frame that the host called. What a frame does above its
own start leaves the chain as it is; a call makes it longer by one frame, and
leaving a frame gives back the chain of the caller.
-/

namespace Jvm

/-- Where a frame starts, and what it has saved of its caller. -/
abbrev SavedFrame := Nat × FrameContext

namespace FrameContext

/-- A context is read from what lies up to the start of its frame. -/
theorem read_eq_of_raw_eq {left right : Stack} {startSp : Nat} (room : 3 ≤ startSp)
    (same : ∀ index ≤ startSp, left.raw index = right.raw index) :
    read left startSp = read right startSp := by
  obtain ⟨base, rfl⟩ := Nat.exists_eq_add_of_le' room
  apply read_congr
  intro index above below
  exact same index (Nat.le_of_lt_succ below)

end FrameContext

namespace Frame

variable {stack : Stack} {frame : Frame}

theorem caller?_of_host (host : (FrameContext.read stack frame.startSp).caller = none) :
    frame.caller? stack = none := by
  simp only [caller?, host, Option.map_none, ite_self]

theorem caller?_of_caller {id : MethodId}
    (called : (FrameContext.read stack frame.startSp).caller = some id)
    (below : (FrameContext.read stack frame.startSp).callerStartSp < frame.startSp) :
    frame.caller? stack = some
      { method := id
        pc := (FrameContext.read stack frame.startSp).callerPc
        startSp := (FrameContext.read stack frame.startSp).callerStartSp
        top := FrameContext.base frame.startSp } := by
  simp only [caller?, if_pos below, called, Option.map_some]

end Frame

namespace Stack

/-- The frames that are found from a frame's start, innermost first. -/
inductive Chains (stack : Stack) (table : ClassTable) : Nat → List SavedFrame → Prop
  | host {startSp : Nat} (room : FrameContext.size ≤ startSp + 1)
      (host : (FrameContext.read stack startSp).caller = none)
      (bottom : (FrameContext.read stack startSp).callerStartSp = 0) :
      Chains stack table startSp [(startSp, FrameContext.read stack startSp)]
  | caller {startSp : Nat} {id : MethodId} {callers : List SavedFrame}
      (called : (FrameContext.read stack startSp).caller = some id) (linked : table.HasMethod id)
      (below : (FrameContext.read stack startSp).callerStartSp + FrameContext.size ≤ startSp)
      (chains : Chains stack table (FrameContext.read stack startSp).callerStartSp callers) :
      Chains stack table startSp ((startSp, FrameContext.read stack startSp) :: callers)

namespace Chains

variable {stack : Stack} {table : ClassTable} {startSp : Nat} {saved : List SavedFrame}

theorem grow (chains : stack.Chains table startSp saved) {after : ClassTable}
    (grows : table.GrowsTo after) : stack.Chains after startSp saved := by
  induction chains with
  | host room host bottom => exact .host room host bottom
  | caller called linked below chains ih => exact .caller called (grows.hasMethod linked) below ih

/-- Chains are read from what lies up to the start of the innermost frame. -/
theorem congr (chains : stack.Chains table startSp saved) {other : Stack}
    (same : ∀ index ≤ startSp, other.raw index = stack.raw index) :
    other.Chains table startSp saved := by
  induction chains with
  | @host startSp room host bottom =>
      have read := FrameContext.read_eq_of_raw_eq (Nat.le_of_succ_le_succ room) same
      rw [← read] at host bottom ⊢
      exact .host room host bottom
  | @caller startSp id callers called linked below chains ih =>
      have room : 3 ≤ startSp := Nat.le_trans (by decide) (Nat.le_of_add_left_le below)
      have read := FrameContext.read_eq_of_raw_eq room same
      have inner := ih fun index inside =>
        same index (Nat.le_trans inside (Nat.le_of_add_right_le below))
      rw [← read] at called below inner ⊢
      exact .caller called linked below inner

theorem of_host {context : FrameContext} (room : FrameContext.size ≤ startSp + 1)
    (read : FrameContext.read stack startSp = context) (host : context.caller = none)
    (bottom : context.callerStartSp = 0) : stack.Chains table startSp [(startSp, context)] := by
  subst read
  exact .host room host bottom

theorem of_caller {context : FrameContext} {id : MethodId}
    (read : FrameContext.read stack startSp = context) (called : context.caller = some id)
    (linked : table.HasMethod id) (below : context.callerStartSp + FrameContext.size ≤ startSp)
    (chains : stack.Chains table context.callerStartSp saved) :
    stack.Chains table startSp ((startSp, context) :: saved) := by
  subst read
  exact .caller called linked below chains

/-- No frame of a chain starts above the innermost one. -/
theorem le_of_mem (chains : stack.Chains table startSp saved) {frame : SavedFrame}
    (member : frame ∈ saved) : frame.1 ≤ startSp := by
  induction chains with
  | host room host bottom =>
      cases List.mem_singleton.mp member
      exact Nat.le_refl _
  | caller called linked below chains ih =>
      rcases List.mem_cons.mp member with rfl | member
      · exact Nat.le_refl _
      · exact Nat.le_trans (ih member) (Nat.le_of_add_right_le below)

/-- The frames of a chain are those that the inspection of a stack finds. -/
theorem map_chain (chains : stack.Chains table startSp saved) (frame : Frame)
    (start : frame.startSp = startSp) :
    (frame.chain stack).map (fun frame => (frame.startSp, FrameContext.read stack frame.startSp)) =
      saved := by
  induction chains generalizing frame with
  | @host startSp room host bottom =>
      rw [Frame.chain_of_host stack (Frame.caller?_of_host (start ▸ host)), List.map_singleton, start]
  | @caller startSp id callers called linked below chains ih =>
      have lower : (FrameContext.read stack startSp).callerStartSp < startSp :=
        Nat.lt_of_lt_of_le (Nat.lt_add_of_pos_right (by decide)) below
      subst start
      rw [Frame.chain_of_caller stack (Frame.caller?_of_caller called lower), List.map_cons,
        ih _ rfl]

end Chains

/-- Whether what lies up to the starts of some frames is the same on two stacks. -/
def Agrees (before after : Stack) (saved : List SavedFrame) : Prop :=
  ∀ frame ∈ saved, ∀ index ≤ frame.1, after.cell index = before.cell index

namespace Agrees

variable {first second third : Stack} {saved fewer : List SavedFrame}

theorem refl (stack : Stack) (saved : List SavedFrame) : stack.Agrees stack saved :=
  fun _ _ _ _ => rfl

theorem symm (agrees : first.Agrees second saved) : second.Agrees first saved :=
  fun frame member index inside => (agrees frame member index inside).symm

theorem trans (left : first.Agrees second saved) (right : second.Agrees third saved) :
    first.Agrees third saved :=
  fun frame member index inside =>
    (right frame member index inside).trans (left frame member index inside)

theorem of_subset (agrees : first.Agrees second saved) (among : fewer ⊆ saved) :
    first.Agrees second fewer :=
  fun frame member => agrees frame (among member)

end Agrees

end Stack

namespace Execution

/-- The live frames with what they have saved, innermost first. -/
def saved (exec : Execution) : List SavedFrame :=
  exec.frames.map fun frame => (frame.startSp, FrameContext.read exec.stack frame.startSp)

/-- Whether the frames of an execution are among those of another one, with all that lies
below the innermost of them. -/
structure Under (exec other : Execution) : Prop where
  saved : exec.saved <:+ other.saved
  agrees : exec.stack.Agrees other.stack exec.saved

theorem Under.refl (exec : Execution) : exec.Under exec := ⟨List.suffix_rfl, .refl _ _⟩

/-- Whether the frames of an execution stand: its method is linked, its operands
lie above its start, and its callers form a chain. -/
structure Stands (exec : Execution) (table : ClassTable) (saved : List SavedFrame) : Prop where
  limit : exec.stack.limit ≤ FrameContext.encodablePositions
  idle : exec.method = none → saved = [] ∧ exec.startSp = 0
  linked : ∀ id, exec.method = some id → table.HasMethod id
  room : ∀ id, exec.method = some id → exec.startSp + 1 ≤ exec.stack.sp
  chains : ∀ id, exec.method = some id → exec.stack.Chains table exec.startSp saved

/-- Whether so many slots of an execution are operands of its current frame. -/
def Offers (exec : Execution) (count : Nat) : Prop :=
  ∀ id, exec.method = some id → exec.startSp + 1 + count ≤ exec.stack.sp

/-- An execution without a frame. -/
theorem stands_of_idle {exec : Execution} {table : ClassTable} (idle : exec.method = none)
    (bottom : exec.startSp = 0) (limit : exec.stack.limit ≤ FrameContext.encodablePositions) :
    exec.Stands table [] where
  limit := limit
  idle _ := ⟨rfl, bottom⟩
  linked id busy := by cases idle.symm.trans busy
  room id busy := by cases idle.symm.trans busy
  chains id busy := by cases idle.symm.trans busy

namespace Stands

variable {exec : Execution} {table : ClassTable} {saved : List SavedFrame}
  (stands : exec.Stands table saved)

include stands

theorem saved_eq : exec.saved = saved := by
  cases current : exec.method with
  | none =>
      rw [Execution.saved, frames, Frame.all.eq_def, current, (stands.idle current).1]
      rfl
  | some id =>
      rw [Execution.saved, frames, Frame.all.eq_def, current]
      exact (stands.chains id current).map_chain _ rfl

theorem offers : exec.Offers 0 := stands.room

theorem grow {after : ClassTable} (grows : table.GrowsTo after) : exec.Stands after saved where
  limit := stands.limit
  idle := stands.idle
  linked id busy := grows.hasMethod (stands.linked id busy)
  room := stands.room
  chains id busy := (stands.chains id busy).grow grows

/-- What is done above the start of the current frame leaves the chain. -/
theorem keep {after : Execution} (method : after.method = exec.method)
    (startSp : after.startSp = exec.startSp) (limit : after.stack.limit = exec.stack.limit)
    (keeps : ∀ id, exec.method = some id → exec.startSp + 1 ≤ exec.stack.sp →
      exec.stack.Keeps (exec.startSp + 1) after.stack) : after.Stands table saved where
  limit := limit ▸ stands.limit
  idle idle := by
    rw [startSp]
    exact stands.idle (method.symm.trans idle)
  linked id busy := stands.linked id (method.symm.trans busy)
  room id busy := by
    have current := method.symm.trans busy
    rw [startSp]
    exact (keeps id current (stands.room id current)).room
  chains id busy := by
    have current := method.symm.trans busy
    rw [startSp]
    refine (stands.chains id current).congr ?_
    intro index inside
    apply Stack.raw_eq_of_cell_eq
    exact (keeps id current (stands.room id current)).cells index (Nat.lt_succ_of_le inside)

theorem congr {after : Execution} (method : after.method = exec.method)
    (startSp : after.startSp = exec.startSp) (stack : after.stack = exec.stack) :
    after.Stands table saved where
  limit := stack ▸ stands.limit
  idle idle := by
    rw [startSp]
    exact stands.idle (method.symm.trans idle)
  linked id busy := stands.linked id (method.symm.trans busy)
  room id busy := by
    rw [startSp, stack]
    exact stands.room id (method.symm.trans busy)
  chains id busy := by
    rw [startSp, stack]
    exact stands.chains id (method.symm.trans busy)

/-- Frames start where their execution is, or below. -/
theorem le_of_mem {frame : SavedFrame} (member : frame ∈ saved) :
    ∃ id, exec.method = some id ∧ frame.1 ≤ exec.startSp := by
  cases current : exec.method with
  | none =>
      rw [(stands.idle current).1] at member
      cases member
  | some id => exact ⟨id, rfl, (stands.chains id current).le_of_mem member⟩

/-- What is done above the start of the current frame is above all frames. -/
theorem agrees_of_keeps {after : Stack}
    (keeps : ∀ id, exec.method = some id → exec.startSp + 1 ≤ exec.stack.sp →
      exec.stack.Keeps (exec.startSp + 1) after) : exec.stack.Agrees after saved := by
  intro frame member index inside
  obtain ⟨id, current, below⟩ := stands.le_of_mem member
  apply (keeps id current (stands.room id current)).cells
  exact Nat.lt_succ_of_le (Nat.le_trans inside below)

theorem agrees_enter {method : Method} (id : MethodId)
    (claimed : method.frameArgSlots.toNat ≤ exec.stack.sp)
    (offers : exec.Offers method.frameArgSlots.toNat) (callerPc returnPc : UInt32) :
    exec.stack.Agrees (exec.enter method id callerPc returnPc).stack saved := by
  intro frame member index inside
  obtain ⟨current, busy, below⟩ := stands.le_of_mem member
  have above := offers current busy
  apply exec.stack.cell_enterFrame_of_lt _ _ _ index claimed method.frameArgSlots_le_frameLocals
  omega

theorem agrees_leave {startSp : Nat} {context : FrameContext} {callers : List SavedFrame}
    (chain : saved = (startSp, context) :: callers) (resume : FrameContext → UInt32) :
    exec.stack.Agrees (exec.leave resume).stack callers := by
  subst chain
  cases current : exec.method with
  | none => cases (stands.idle current).1
  | some id =>
      cases stands.chains id current with
      | host room host bottom => exact fun frame member => nomatch member
      | caller called linked below chains =>
          have base : FrameContext.base exec.startSp = exec.startSp - 3 :=
            if_pos (Nat.le_trans (by decide) (Nat.le_of_add_left_le below))
          intro frame member index inside
          have lower := chains.le_of_mem member
          apply exec.stack.cell_setSp_of_lt
          rw [base]
          simp only [FrameContext.size] at below
          omega

/-- What a call saves is read back as it was. -/
theorem encodable (encodable : ∀ caller, exec.method = some caller → caller.Encodable)
    (bounded : exec.stack.sp ≤ exec.stack.limit) (callerPc returnPc : UInt32) :
    FrameContext.Encodable ⟨exec.method, callerPc, returnPc, exec.startSp⟩ := by
  refine ⟨encodable, ?_⟩
  change exec.startSp < FrameContext.encodablePositions
  rcases Option.eq_none_or_eq_some exec.method with host | ⟨caller, current⟩
  · rw [(stands.idle host).2]
    decide
  · exact Nat.lt_of_lt_of_le (stands.room caller current) (Nat.le_trans bounded stands.limit)

/-- A call puts a frame on the chain that has saved the current one. -/
theorem enter {method : Method} {id : MethodId} (linked : table.HasMethod id)
    (claimed : method.frameArgSlots.toNat ≤ exec.stack.sp)
    (bounded : exec.stack.sp ≤ exec.stack.limit)
    (offers : exec.Offers method.frameArgSlots.toNat)
    (encodable : ∀ caller, exec.method = some caller → caller.Encodable)
    (callerPc returnPc : UInt32) :
    (exec.enter method id callerPc returnPc).Stands table
      ((exec.stack.sp - method.frameArgSlots.toNat + 3,
        ⟨exec.method, callerPc, returnPc, exec.startSp⟩) :: saved) := by
  have covered := method.frameArgSlots_le_frameLocals
  have read := exec.stack.read_enterFrame ⟨exec.method, callerPc, returnPc, exec.startSp⟩
    method.frameArgSlots.toNat method.frameLocals claimed covered
  rw [(stands.encodable encodable bounded callerPc returnPc).decoded_eq] at read
  refine ⟨?_, ?_, ?_, ?_, ?_⟩
  · exact (exec.stack.limit_enterFrame ..).symm ▸ stands.limit
  · rintro ⟨⟩
  · rintro _ ⟨⟩
    exact linked
  · rintro _ ⟨⟩
    exact (exec.stack.sp_enterFrame ..).symm ▸ Nat.le_add_right _ _
  · rintro _ ⟨⟩
    rw [startSp_enter]
    -- whether the host or a method calls decides what the new frame stands on
    rcases Option.eq_none_or_eq_some exec.method with host | ⟨caller, current⟩
    · have room : FrameContext.size ≤ exec.stack.sp - method.frameArgSlots.toNat + 3 + 1 := by
        rw [FrameContext.size]
        omega
      obtain ⟨none, bottom⟩ := stands.idle host
      rw [none]
      exact .of_host room read host bottom
    · have above := offers caller current
      refine .of_caller read current (stands.linked caller current) ?_ ?_
      · simp only [FrameContext.size]
        omega
      · refine (stands.chains caller current).congr ?_
        intro index inside
        apply Stack.raw_eq_of_cell_eq
        apply exec.stack.cell_enterFrame_of_lt _ _ _ index claimed covered
        omega

/-- Leaving a frame gives back the chain of its caller. -/
theorem leave {startSp : Nat} {context : FrameContext} {callers : List SavedFrame}
    (chain : saved = (startSp, context) :: callers) (resume : FrameContext → UInt32) :
    (exec.leave resume).Stands table callers := by
  subst chain
  cases current : exec.method with
  | none => cases (stands.idle current).1
  | some id =>
      have limit : (exec.leave resume).stack.limit ≤ FrameContext.encodablePositions :=
        (exec.stack.limit_setSp _).symm ▸ stands.limit
      cases stands.chains id current with
      | host room host bottom => exact stands_of_idle host bottom limit
      | caller called linked below chains =>
          have base : FrameContext.base exec.startSp = exec.startSp - 3 :=
            if_pos (Nat.le_trans (by decide) (Nat.le_of_add_left_le below))
          have kept : (FrameContext.read exec.stack exec.startSp).callerStartSp + 1 ≤
              FrameContext.base exec.startSp := by
            rw [base]
            simp only [FrameContext.size] at below
            omega
          refine ⟨limit, ?_, ?_, ?_, ?_⟩
          · intro idle
            cases called.symm.trans idle
          · intro id found
            cases called.symm.trans found
            exact linked
          · intro _ _
            exact (exec.stack.sp_setSp _).symm ▸ kept
          · intro _ _
            refine chains.congr ?_
            intro index inside
            apply Stack.raw_eq_of_cell_eq
            exact exec.stack.cell_setSp_of_lt _ _ (Nat.lt_of_le_of_lt inside kept)

end Stands

end Execution

end Jvm
