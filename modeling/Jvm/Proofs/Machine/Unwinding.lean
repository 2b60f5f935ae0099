import Jvm.Proofs.Machine.FrameChain
import Jvm.Proofs.Machine.Handlers

/-!
# Unwinding

A thrown object goes to the innermost frame with a handler for it, and there to the
first one. The frames above are left on the way, and their initializers have failed;
what lies below the operands of the frame that catches it is as it was. Without a
handler the execution comes to its end, and the report lists the frames there were.
-/

namespace Jvm

namespace PendingCall

@[simp] theorem length_frames (calls : List PendingCall) (pc : UInt32) (top : Nat) :
    (frames calls pc top).length = calls.length := by
  induction calls generalizing pc top with
  | nil => rfl
  | cons call callers ih => rw [frames, List.length_cons, ih, List.length_cons]

theorem exists_mem_frames {calls : List PendingCall} {call : PendingCall} (member : call ∈ calls)
    (pc : UInt32) (top : Nat) : ∃ frame ∈ frames calls pc top, frame.method = call.method := by
  induction calls generalizing pc top with
  | nil => cases member
  | cons inner callers ih =>
      rcases List.mem_cons.mp member with rfl | member
      · exact ⟨_, .head _, rfl⟩
      · obtain ⟨frame, found, same⟩ := ih member inner.context.callerPc inner.base
        exact ⟨frame, .tail _ found, same⟩

end PendingCall

/-- An execution that goes on at a handler, with an exception as the only operand. -/
def Execution.handle (exec : Execution) (floor : Nat) (pc : UInt32) (ref : Ref) : Execution :=
  { exec with stack := (exec.stack.setSp floor).pushRef (some ref), pc }

namespace Execution.Tiled

variable {exec : Execution} {table : ClassTable} {call : PendingCall}
  {calls callers : List PendingCall}

/-- Leaving the current frame takes it off the frames. -/
theorem frames_leave (tiled : exec.Tiled table (call :: callers)) :
    (exec.leave (·.callerPc)).frames = exec.frames.tail := by
  have left := tiled.leave (·.callerPc)
  rw [left.frames_eq, tiled.frames_eq]
  obtain ⟨-, start, tiles⟩ := tiled
  have current : exec.startSp = call.startSp := start
  cases tiles with
  | frame below saved scalar caller callerStart covers admitted =>
      have pc : (exec.leave (·.callerPc)).pc = call.context.callerPc := by
        simp only [Execution.leave, current, saved]
      have top : (exec.leave (·.callerPc)).stack.sp = call.base := by
        simp only [Execution.leave, current, PendingCall.base_startSp, Stack.sp_setSp]
      rw [pc, top]
      rfl

/-- The locals of every frame lie below the top. -/
theorem locals_le_sp (tiled : exec.Tiled table calls) {frame : Frame} (member : frame ∈ exec.frames) :
    frame.locals + (table.method frame.method).frameLocals ≤ exec.stack.sp := by
  rw [tiled.frames_eq] at member
  exact Nat.le_trans (tiled.tiles.roomy exec.pc frame member).1
    (tiled.tiles.top_le_of_mem exec.pc frame member)

theorem length_frames_le (tiled : exec.Tiled table calls) :
    exec.frames.length ≤ exec.stack.slots.size + 1 := by
  rw [tiled.frames_eq, PendingCall.length_frames]
  exact tiled.tiles.length_le

/-- A handler takes over in the innermost frame, with the exception above the locals. -/
theorem handle (tiled : exec.Tiled table calls) {frame : Frame} {outer : List Frame}
    (frames : exec.frames = frame :: outer) (pc : UInt32) (ref : Ref) :
    let floor := frame.locals + (table.method frame.method).frameLocals
    (exec.handle floor pc ref).frames = { frame with pc, top := floor + 1 } :: outer ∧
      (exec.handle floor pc ref).stack.sp = floor + 1 ∧
      (exec.handle floor pc ref).stack.cell floor = (Ref.toSlot (some ref), true) ∧
      ∀ index < floor, (exec.handle floor pc ref).stack.cell index = exec.stack.cell index := by
  intro floor
  have cut : (exec.stack.setSp floor).sp = floor := Stack.sp_setSp _ _
  have top : (exec.handle floor pc ref).stack.sp = floor + 1 :=
    (Stack.sp_pushValue (exec.stack.setSp floor) (.ref (some ref))).trans (congrArg (· + 1) cut)
  have cells : ∀ index, (exec.handle floor pc ref).stack.cell index =
      if index = floor then (Ref.toSlot (some ref), true)
      else (exec.stack.setSp floor).cell index := by
    intro index
    have stored := Stack.cell_storeRef (exec.stack.setSp floor) floor index (some ref)
    rw [← stored, Execution.handle, Stack.pushRef, cut]
    rfl
  refine ⟨?_, top, ?_, ?_⟩
  · cases calls with
    | nil =>
        rw [tiled.frames_eq] at frames
        cases frames
    | cons call callers =>
        rw [tiled.frames_eq] at frames
        cases frames
        have keeps : exec.stack.Keeps (exec.startSp + 1) (exec.handle floor pc ref).stack := by
          have room : exec.startSp + 1 ≤ floor := by
            rw [tiled.startSp]
            exact Nat.le_add_right _ _
          exact (Stack.keeps_setSp room).trans (Stack.keeps_pushRef (cut.symm ▸ room) _)
        have above : exec.startSp + 1 + (table.method call.method).frameLocals ≤
            (exec.handle floor pc ref).stack.sp := by
          rw [top, tiled.startSp]
          exact Nat.le_succ _
        have kept : (exec.handle floor pc ref).Tiled table (call :: callers) :=
          tiled.keep rfl rfl keeps above
        rw [kept.frames_eq, top]
        rfl
  · rw [cells, if_pos rfl]
  · intro index below
    rw [cells, if_neg (Nat.ne_of_lt below)]
    exact Stack.cell_setSp_of_lt _ _ _ below

end Execution.Tiled

namespace Machine

/-- Whether an object can be thrown: it is live and of a class of exceptions, and the
execution consists of frames of linked methods, one above the other. -/
structure Throws (machine : Machine) (ref : Ref) (thrown : ClassId) : Prop
    extends machine.Throwable thrown where
  live : machine.heap.class? ref = some thrown
  tiled : ∃ calls, machine.exec.Tiled machine.registry.toClassTable calls
  owners : ∀ frame ∈ machine.exec.frames, machine.registry.Has frame.method.owner

/-- The first operand of a frame. -/
def floor (machine : Machine) (frame : Frame) : Nat :=
  frame.locals + (machine.method frame.method).frameLocals

/-- Whether the classes whose initializers are among some frames have failed. -/
def Failed (before after : Machine) (frames : List Frame) : Prop :=
  ∀ frame ∈ frames, (before.method frame.method).isInitializer = true →
    (after.cls frame.method.owner).initState = .failed

/-- Where an execution is once a handler of a frame has caught an object. -/
structure Caught (before : Machine) (ref : Ref) (passed : List Frame) (frame : Frame)
    (callers : List Frame) (handler : Handler) (after : Machine) : Prop where
  frames : after.exec.frames =
    { frame with pc := handler.handlerPc.toUInt32, top := before.floor frame + 1 } :: callers
  top : after.exec.stack.sp = before.floor frame + 1
  operand : after.exec.stack.cell (before.floor frame) = (Ref.toSlot (some ref), true)
  below : ∀ index < before.floor frame,
    after.exec.stack.cell index = before.exec.stack.cell index
  failed : before.Failed after passed
  unwinds : before.Unwinds after

/-- Where an execution is once an object that nobody caught has been reported. -/
structure Abandoned (before after : Machine) : Prop where
  idle : after.exec.isIdle = true
  frames : after.exec.frames = []
  empty : after.exec.stack.sp = 0
  failed : before.Failed after before.exec.frames
  unwinds : before.Unwinds after

/-! ## One frame -/

/-- What becomes of a machine when its innermost frame is left. -/
structure Leaves (machine : Machine) (frame : Frame) (left : Machine) : Prop where
  unwinds : machine.Unwinds left
  exec : left.exec = machine.exec.leave (·.callerPc)
  failed : machine.Failed left [frame]

/-- The classes of the frames left are those of the first and of the others. -/
theorem Leaves.failed_cons {machine left after : Machine} {frame : Frame} {frames : List Frame}
    (leaves : machine.Leaves frame left) (unwinds : left.Unwinds after)
    (known : machine.registry.Has frame.method.owner)
    (owners : ∀ outer ∈ frames, machine.registry.Has outer.method.owner)
    (failed : left.Failed after frames) : machine.Failed after (frame :: frames) := by
  intro outer member initializer
  rcases List.mem_cons.mp member with rfl | member
  · exact unwinds.classes.failed _ (leaves.unwinds.classes.has known)
      (leaves.failed outer (.head _) initializer)
  · apply failed outer member
    rw [leaves.unwinds.method_eq (owners outer member)]
    exact initializer

namespace Throws

variable {machine left : Machine} {ref : Ref} {thrown : ClassId} {frame : Frame}
  {outer : List Frame} (throws : machine.Throws ref thrown)
  (frames : machine.exec.frames = frame :: outer)

include throws frames

/-- The registers are those of the innermost frame. -/
theorem current : machine.exec.method = some frame.method ∧ machine.exec.pc = frame.pc ∧
    machine.exec.startSp = frame.startSp := by
  obtain ⟨calls, tiled⟩ := throws.tiled
  rw [tiled.frames_eq] at frames
  cases calls with
  | nil => cases frames
  | cons call callers =>
      cases frames
      exact ⟨tiled.method, rfl, tiled.startSp⟩

theorem leaves_abandonFrame {searched : Machine} (unwinds : machine.Unwinds searched)
    (exec : searched.exec = machine.exec) : machine.Leaves frame (searched.abandonFrame frame.method) := by
  have known : machine.registry.Has frame.method.owner :=
    throws.owners frame (frames ▸ .head _)
  refine ⟨unwinds.trans (unwinds_abandonFrame unwinds.closed frame.method), ?_, ?_⟩
  · rw [exec_abandonFrame, exec]
  · intro other member initializer
    cases List.mem_singleton.mp member
    apply initState_abandonFrame unwinds.closed (unwinds.classes.has known)
    rw [unwinds.method_eq known]
    exact initializer

/-- The exception is thrown on in the caller. -/
theorem of_leaves (leaves : machine.Leaves frame left) :
    left.Throws ref thrown ∧ left.exec.frames = outer ∧
      ∀ index < left.exec.stack.sp,
        left.exec.stack.cell index = machine.exec.stack.cell index := by
  obtain ⟨calls, tiled⟩ := throws.tiled
  cases calls with
  | nil =>
      rw [tiled.frames_eq] at frames
      cases frames
  | cons call callers =>
      have outside : left.exec.frames = outer := by
        rw [leaves.exec, tiled.frames_leave, frames, List.tail_cons]
      refine ⟨⟨throws.toThrowable.of_unwinds leaves.unwinds, ?_, ⟨callers, ?_⟩, ?_⟩, outside, ?_⟩
      · rw [leaves.unwinds.class?_eq]
        exact throws.live
      · rw [leaves.exec]
        refine (tiled.leave (·.callerPc)).of_sizes fun pending member => ?_
        have owner : machine.registry.Has pending.method.owner := by
          obtain ⟨frame, found, same⟩ := PendingCall.exists_mem_frames (.tail call member)
            machine.exec.pc machine.exec.stack.sp
          exact same ▸ throws.owners frame (tiled.frames_eq ▸ found)
        have same := leaves.unwinds.method_eq owner
        exact ⟨congrArg Method.frameLocals same, congrArg Method.maxStack same⟩
      · intro frame member
        rw [outside] at member
        exact leaves.unwinds.classes.has (throws.owners frame (frames ▸ .tail _ member))
      · intro index inside
        rw [leaves.exec] at inside ⊢
        exact Stack.cell_setSp_of_lt _ _ _ (by rwa [Execution.leave, Stack.sp_setSp] at inside)

end Throws

/-! ## The loop over frames -/

section

variable {machine : Machine} {ref : Ref} {thrown : ClassId} (throws : machine.Throws ref thrown)
  {frame : Frame} {outer : List Frame} (fuel : Nat) (trace : List (MethodId × UInt32))

include throws

/-- A frame without a handler is left. -/
theorem unwindFrames_of_unhandled (frames : machine.exec.frames = frame :: outer)
    (unhandled : machine.handlerIn? thrown frame = none) :
    ∃ left, machine.Leaves frame left ∧
      Guest.unwindFrames ref thrown (fuel + 1) trace machine =
        Guest.unwindFrames ref thrown fuel ((frame.method, frame.pc) :: trace) left := by
  obtain ⟨method, pc, -⟩ := throws.current frames
  have known := throws.owners frame (frames ▸ .head _)
  obtain ⟨found, searched, ran, unwinds, exec, result⟩ :=
    (ends_findHandler throws.toThrowable (.refl throws.closed) known).exists_ok
      fun _ _ never => never
  rw [unhandled, Option.map_none] at result
  subst result
  refine ⟨searched.abandonFrame frame.method, throws.leaves_abandonFrame frames unwinds exec, ?_⟩
  simp only [Guest.unwindFrames, bind, EStateM.bind, run_get, method, pc, ran]
  rfl

/-- A frame with a handler goes on there. -/
theorem unwindFrames_of_handled (frames : machine.exec.frames = frame :: outer) {handler : Handler}
    (handled : machine.handlerIn? thrown frame = some handler) :
    ∃ after, Guest.unwindFrames ref thrown (fuel + 1) trace machine = .ok ⟨⟩ after ∧
      machine.Caught ref [] frame outer handler after := by
  obtain ⟨method, pc, start⟩ := throws.current frames
  have known := throws.owners frame (frames ▸ .head _)
  obtain ⟨found, searched, ran, unwinds, exec, result⟩ :=
    (ends_findHandler throws.toThrowable (.refl throws.closed) known).exists_ok
      fun _ _ never => never
  rw [handled, Option.map_some] at result
  subst result
  obtain ⟨calls, tiled⟩ := throws.tiled
  have floor : machine.exec.startSp + 1 + (searched.method frame.method).frameLocals =
      machine.floor frame := by
    rw [start, unwinds.method_eq known]
    rfl
  obtain ⟨framed, top, operand, below⟩ := tiled.handle frames handler.handlerPc.toUInt32 ref
  let entered := searched.modifyExec fun _ =>
    machine.exec.handle (machine.floor frame) handler.handlerPc.toUInt32 ref
  refine ⟨entered, ?_, framed, top, operand, below, fun _ none => absurd none List.not_mem_nil,
    unwinds.trans (.modifyExec unwinds.closed _)⟩
  have enters : Guest.enterHandler frame.method handler.handlerPc.toUInt32 ref searched =
      .ok ⟨⟩ entered := by
    have same : (searched.modifyExec fun exec =>
        exec.handle (exec.startSp + 1 + (searched.method frame.method).frameLocals)
          handler.handlerPc.toUInt32 ref) = entered := by
      simp only [entered, Machine.modifyExec, exec, floor]
    rw [← same]
    rfl
  simp only [Guest.unwindFrames, bind, EStateM.bind, run_get, method, pc, ran]
  exact enters

/-- Without a frame the exception is reported. -/
theorem unwindFrames_of_idle (frames : machine.exec.frames = []) :
    Guest.unwindFrames ref thrown (fuel + 1) trace machine =
        .error (.fatal (machine.uncaught ref thrown trace.reverse))
          (machine.modifyExec Execution.reset) := by
  have idle : machine.exec.method = none := by
    obtain ⟨calls, tiled⟩ := throws.tiled
    rw [tiled.frames_eq] at frames
    cases calls with
    | nil => exact tiled.method
    | cons call callers => cases frames
  simp only [Guest.unwindFrames, bind, EStateM.bind, run_get, idle]
  rfl

end

/-- Frames without a handler are passed, and the first with one catches the exception. -/
theorem caught_of_unwindFrames {machine : Machine} {ref : Ref} {thrown : ClassId}
    (throws : machine.Throws ref thrown) {passed callers : List Frame} {frame : Frame}
    {handler : Handler} (frames : machine.exec.frames = passed ++ frame :: callers)
    (unhandled : ∀ inner ∈ passed, machine.handlerIn? thrown inner = none)
    (handled : machine.handlerIn? thrown frame = some handler) (fuel : Nat)
    (trace : List (MethodId × UInt32)) :
    ∃ after, Guest.unwindFrames ref thrown (passed.length + 1 + fuel) trace machine = .ok ⟨⟩ after ∧
      machine.Caught ref passed frame callers handler after := by
  induction passed generalizing machine trace with
  | nil =>
      rw [List.length_nil, Nat.zero_add, Nat.add_comm]
      exact unwindFrames_of_handled throws fuel trace frames handled
  | cons inner passed ih =>
      have fuels : (inner :: passed).length + 1 + fuel = passed.length + 1 + fuel + 1 := by
        rw [List.length_cons]
        omega
      obtain ⟨left, leaves, runs⟩ := unwindFrames_of_unhandled throws (passed.length + 1 + fuel)
        trace frames (unhandled inner (.head _))
      obtain ⟨throwsOn, outside, kept⟩ := throws.of_leaves frames leaves
      have owners : ∀ outer ∈ passed ++ frame :: callers,
          machine.registry.Has outer.method.owner := fun outer member =>
        throws.owners outer (frames ▸ .tail _ member)
      have member : frame ∈ passed ++ frame :: callers := List.mem_append_right _ (.head _)
      have same : ∀ outer ∈ passed ++ frame :: callers,
          left.handlerIn? thrown outer = machine.handlerIn? thrown outer := fun outer member =>
        handlerIn?_eq throws.toThrowable leaves.unwinds (owners outer member)
      have floor : left.floor frame = machine.floor frame := by
        rw [Machine.floor, Machine.floor, leaves.unwinds.method_eq (owners frame member)]
      obtain ⟨after, ran, caught⟩ := ih throwsOn outside
        (fun outer found => (same outer (List.mem_append_left _ found)).trans
          (unhandled outer (.tail _ found)))
        ((same frame member).trans handled) ((inner.method, inner.pc) :: trace)
      refine ⟨after, ?_, ?_, ?_, ?_, ?_, ?_, leaves.unwinds.trans caught.unwinds⟩
      · rw [fuels, runs, ran]
      · exact floor ▸ caught.frames
      · exact floor ▸ caught.top
      · exact floor ▸ caught.operand
      · intro index below
        obtain ⟨calls, tiled⟩ := throwsOn.tiled
        have inside : left.floor frame ≤ left.exec.stack.sp :=
          tiled.locals_le_sp (outside ▸ member)
        rw [← floor] at below
        exact (caught.below index below).trans (kept index (Nat.lt_of_lt_of_le below inside))
      · exact leaves.failed_cons caught.unwinds (throws.owners inner (frames ▸ .head _))
          (fun outer found => owners outer (List.mem_append_left _ found)) caught.failed

/-- If no frame has a handler, all are left and the exception is reported with them. -/
theorem abandoned_of_unwindFrames {machine : Machine} {ref : Ref} {thrown : ClassId}
    (throws : machine.Throws ref thrown) {frames : List Frame} (all : machine.exec.frames = frames)
    (unhandled : ∀ frame ∈ frames, machine.handlerIn? thrown frame = none) (fuel : Nat)
    {trace : List (MethodId × UInt32)}
    (places : ∀ place ∈ trace, machine.registry.Has place.1.owner) :
    ∃ after, Guest.unwindFrames ref thrown (frames.length + 1 + fuel) trace machine =
        .error (.fatal (machine.uncaught ref thrown
          (trace.reverse ++ frames.map fun frame => (frame.method, frame.pc)))) after ∧
      machine.Abandoned after := by
  induction frames generalizing machine trace with
  | nil =>
      refine ⟨machine.modifyExec Execution.reset, ?_, rfl, ?_, rfl, ?_,
        .modifyExec throws.closed _⟩
      · rw [List.length_nil, Nat.zero_add, Nat.add_comm, List.map_nil, List.append_nil]
        exact unwindFrames_of_idle throws fuel trace all
      · rw [Execution.frames, Frame.all.eq_def]
        rfl
      · rw [all]
        exact fun _ none => absurd none List.not_mem_nil
  | cons inner frames ih =>
      have fuels : (inner :: frames).length + 1 + fuel = frames.length + 1 + fuel + 1 := by
        rw [List.length_cons]
        omega
      obtain ⟨left, leaves, runs⟩ := unwindFrames_of_unhandled throws (frames.length + 1 + fuel)
        trace all (unhandled inner (.head _))
      obtain ⟨throwsOn, outside, -⟩ := throws.of_leaves all leaves
      have known := throws.owners inner (all ▸ .head _)
      have owners : ∀ outer ∈ frames, machine.registry.Has outer.method.owner :=
        fun outer member => throws.owners outer (all ▸ .tail _ member)
      have reached : ∀ place ∈ (inner.method, inner.pc) :: trace,
          machine.registry.Has place.1.owner :=
        List.forall_mem_cons.mpr ⟨known, places⟩
      obtain ⟨after, ran, abandoned⟩ := ih throwsOn outside
        (fun outer member =>
          (handlerIn?_eq throws.toThrowable leaves.unwinds (owners outer member)).trans
            (unhandled outer (.tail _ member)))
        (fun place member => leaves.unwinds.classes.has (reached place member))
      have report : ((inner.method, inner.pc) :: trace).reverse ++
          (frames.map fun frame => (frame.method, frame.pc)) =
            trace.reverse ++ ((inner :: frames).map fun frame => (frame.method, frame.pc)) := by
        rw [List.reverse_cons, List.append_assoc, List.map_cons, List.singleton_append]
      refine ⟨after, ?_, abandoned.idle, abandoned.frames, abandoned.empty, ?_,
        leaves.unwinds.trans abandoned.unwinds⟩
      · rw [fuels, runs, ran, report]
        refine congrArg (fun error => EStateM.Result.error (Throw.fatal error) after) ?_
        apply leaves.unwinds.uncaught_eq throws.linked
        intro place member
        rcases List.mem_append.mp member with member | member
        · exact places place (List.mem_reverse.mp member)
        · obtain ⟨frame, found, rfl⟩ := List.mem_map.mp member
          rcases List.mem_cons.mp found with rfl | found
          · exact known
          · exact owners frame found
      · rw [all]
        exact leaves.failed_cons abandoned.unwinds known owners (outside ▸ abandoned.failed)

section

variable {machine : Machine} {ref : Ref} {thrown : ClassId} (throws : machine.Throws ref thrown)

include throws

theorem unwind_eq_unwindFrames : Guest.unwind ref machine =
    Guest.unwindFrames ref thrown (machine.exec.stack.slots.size + 8) [] machine := by
  simp only [Guest.unwind, bind, EStateM.bind, run_get, throws.live]

/-- An execution has no more frames than unwinding looks at. -/
theorem exists_fuel : ∃ fuel,
    machine.exec.stack.slots.size + 8 = machine.exec.frames.length + 1 + fuel := by
  obtain ⟨calls, tiled⟩ := throws.tiled
  have few := tiled.length_frames_le
  exact Nat.exists_eq_add_of_le (by omega)

theorem unwind_of_handled {passed callers : List Frame} {frame : Frame} {handler : Handler}
    (frames : machine.exec.frames = passed ++ frame :: callers)
    (unhandled : ∀ inner ∈ passed, machine.handlerIn? thrown inner = none)
    (handled : machine.handlerIn? thrown frame = some handler) :
    ∃ after, Guest.unwind ref machine = .ok ⟨⟩ after ∧
      machine.Caught ref passed frame callers handler after := by
  obtain ⟨fuel, enough⟩ := exists_fuel throws
  have length : machine.exec.frames.length + 1 + fuel =
      passed.length + 1 + (callers.length + 1 + fuel) := by
    rw [frames, List.length_append, List.length_cons]
    omega
  rw [unwind_eq_unwindFrames throws, enough, length]
  exact caught_of_unwindFrames throws frames unhandled handled _ []

theorem unwind_of_unhandled
    (unhandled : ∀ frame ∈ machine.exec.frames, machine.handlerIn? thrown frame = none) :
    ∃ after, Guest.unwind ref machine =
        .error (.fatal (.uncaught (machine.displayName thrown) (machine.throwableMessage? ref)
          (machine.exec.frames.map fun frame =>
            machine.registry.describeFrame frame.method frame.pc))) after ∧
      machine.Abandoned after := by
  obtain ⟨fuel, enough⟩ := exists_fuel throws
  obtain ⟨after, ran, abandoned⟩ := abandoned_of_unwindFrames throws rfl unhandled fuel
    fun place none => absurd none List.not_mem_nil
  refine ⟨after, ?_, abandoned⟩
  rw [unwind_eq_unwindFrames throws, enough, ran, uncaught, List.reverse_nil, List.nil_append,
    List.map_map]
  rfl

/-- Unwinding picks the nearest handler and nothing else. The object goes to the innermost
frame that has a handler for it at its pc, and there to the first one: the frames below, and
below its operands the slots and tags of the frame itself, stay as they are, and its only
operand is the object. If no frame has one, the execution ends, and the error lists the
frames there were when the object was thrown. In either case the classes whose initializers
were left have failed. -/
theorem unwind_nearest :
    (∀ (passed callers : List Frame) (frame : Frame) (handler : Handler),
      machine.exec.frames = passed ++ frame :: callers →
      (∀ inner ∈ passed, machine.handlerIn? thrown inner = none) →
      machine.handlerIn? thrown frame = some handler →
      ∃ after, Guest.unwind ref machine = .ok ⟨⟩ after ∧
        machine.Caught ref passed frame callers handler after) ∧
    ((∀ frame ∈ machine.exec.frames, machine.handlerIn? thrown frame = none) →
      ∃ after, Guest.unwind ref machine =
          .error (.fatal (.uncaught (machine.displayName thrown) (machine.throwableMessage? ref)
            (machine.exec.frames.map fun frame =>
              machine.registry.describeFrame frame.method frame.pc))) after ∧
        machine.Abandoned after) :=
  ⟨fun _ _ _ _ => unwind_of_handled throws, unwind_of_unhandled throws⟩

end

/-! ## An initializer that fails -/

/-- A method that protects its first two bytes against everything. -/
def guarded : Method :=
  { nullary #[] with
    code := some { maxStack := 2, bytecode := #[0, 0, 0x57, 0xB1], handlers := [⟨0, 2, 2, 0⟩] } }

/-- A class initializer without handlers. -/
def unguarded : Method := { nullary #[0xBF] with name := "<clinit>" }

/-- The root of all classes, with both methods. -/
def guardedRoot : Class :=
  { classOf [guarded, unguarded] with name := ClassTable.objectName }

def guardedTable : ClassTable := ({} : ClassTable).register guardedRoot

/-- A machine with an object, in the initializer. The frame of the first method waits for it
at a pc. -/
def throwing (pc : UInt32) : Machine where
  config := {}
  registry := { Registry.ofPath {} with toClassTable := guardedTable }
  known := default
  heap := { Heap.ofConfig {} with
    objects := #[some { cls := ⟨0⟩, hash := 1, body := .instance default }] }
  exec := ((Execution.idle Execution.mainId 64).enter guarded ⟨⟨0⟩, 0⟩ 0 0).enter unguarded
    ⟨⟨0⟩, 1⟩ pc pc

section

variable (pc : UInt32)

theorem closed_throwing : (throwing pc).Closed := by
  have first : (throwing pc).registry.Has ⟨0⟩ := Nat.one_pos
  have empty := Registry.closed_ofPath {}
  refine ⟨⟨empty.table.register rfl ⟨nofun, nofun, nofun, fun _ => trivial⟩, ?_⟩,
    ⟨first, first, first, first, first, first, first⟩, ?_⟩
  · intro key target held
    cases Std.HashMap.getElem?_empty.symm.trans held
  · intro index object held
    match index with
    | 0 =>
        cases held
        exact first
    | index + 1 => cases held

theorem tiled_throwing : (throwing pc).exec.Tiled guardedTable
    [⟨⟨⟨0⟩, 1⟩, 4, ⟨some ⟨⟨0⟩, 0⟩, pc, pc, 3⟩⟩, ⟨⟨⟨0⟩, 0⟩, 0, ⟨none, 0, 0, 0⟩⟩] := by
  have idle : (Execution.idle Execution.mainId 64).Tiled guardedTable [] := .of_idle rfl rfl rfl
  have outer := @Execution.Tiled.enter _ _ _ ⟨⟨0⟩, 0⟩ idle.method idle.startSp
    (show (Execution.idle Execution.mainId 64).stack.Tiles guardedTable [] _ from idle.tiles)
    (Nat.zero_le _) (by decide) nofun (by decide) 0 0
  have inner := @Execution.Tiled.enter _ _ _ ⟨⟨0⟩, 1⟩ outer.method outer.startSp outer.tiles
    (Nat.zero_le _) (by decide) (by rintro _ ⟨⟩; exact MethodId.encodable_of_lt (by decide))
    (by decide) pc pc
  exact inner

theorem throws_throwing : (throwing pc).Throws (Ref.ofIndex 0) ⟨0⟩ where
  closed := closed_throwing pc
  linked := Nat.one_pos
  object := rfl
  root := by
    have found : (throwing pc).registry.find? ClassTable.objectName = some ⟨0⟩ :=
      Linking.find?_register_self {} guardedRoot
    rw [found]
    exact nofun
  live := rfl
  tiled := ⟨_, tiled_throwing pc⟩
  owners := by
    rw [(tiled_throwing pc).frames_eq]
    exact List.forall_mem_cons.mpr ⟨Nat.one_pos, List.forall_mem_singleton.mpr Nat.one_pos⟩

end

theorem unwind_nearest_guarded :
    (throwing 1).exec.frames.length = 2 ∧
      ∃ after, Guest.unwind (Ref.ofIndex 0) (throwing 1) = .ok ⟨⟩ after ∧
        after.exec.frames = [⟨⟨⟨0⟩, 0⟩, 2, 3, 5⟩] ∧ (after.cls ⟨0⟩).initState = .failed := by
  have frames := (tiled_throwing 1).frames_eq
  refine ⟨congrArg List.length frames, ?_⟩
  obtain ⟨after, ran, caught⟩ := (unwind_nearest (throws_throwing 1)).1 [⟨⟨⟨0⟩, 1⟩, 0, 7, 8⟩] []
    ⟨⟨⟨0⟩, 0⟩, 1, 3, 4⟩ ⟨0, 2, 2, 0⟩ frames (List.forall_mem_singleton.mpr rfl) rfl
  exact ⟨after, ran, caught.frames, caught.failed _ (.head _) (by decide)⟩

/-! ## Frames that have not started -/

/-- A frame that has not started has no handler, unless its method protects its first
instruction. -/
theorem handlerIn?_of_unstarted {machine : Machine} {frame : Frame} (unstarted : frame.pc = 0)
    (unprotected : ∀ handler ∈ (machine.method frame.method).handlers, handler.startPc ≠ 0)
    (thrown : ClassId) : machine.handlerIn? thrown frame = none := by
  rw [handlerIn?, List.find?_eq_none]
  intro handler member
  have outside : handler.covers frame.pc = false := by
    have positive : ¬handler.startPc.toUInt32 ≤ 0 := by
      intro start
      apply unprotected handler member
      rw [UInt32.le_iff_toNat_le, UInt16.toNat_toUInt32] at start
      exact UInt16.toNat.inj (Nat.le_zero.mp start)
    rw [Handler.covers, unstarted, decide_eq_false positive, Bool.false_and]
  rw [catches, outside, Bool.false_and]
  exact Bool.false_ne_true

/-- An exception passes the frames that wait for the one that throws it without having
started, if their methods do not protect their first instructions: it is caught below them
or reported, and in either case the classes whose initializers were among them have
failed. -/
theorem unwind_unstarted {machine : Machine} {ref : Ref} {thrown : ClassId}
    (throws : machine.Throws ref thrown) {raising : Frame} {waiting callers : List Frame}
    (frames : machine.exec.frames = raising :: (waiting ++ callers))
    (unhandled : machine.handlerIn? thrown raising = none)
    (unstarted : ∀ frame ∈ waiting, frame.pc = 0)
    (unprotected : ∀ frame ∈ waiting, ∀ handler ∈ (machine.method frame.method).handlers,
      handler.startPc ≠ 0) :
    (∃ passed frame outer handler after, callers = passed ++ frame :: outer ∧
        Guest.unwind ref machine = .ok ⟨⟩ after ∧
        machine.Caught ref (raising :: (waiting ++ passed)) frame outer handler after) ∨
      ∃ error after, Guest.unwind ref machine = .error (.fatal error) after ∧
        machine.Abandoned after := by
  have skipped : ∀ frame ∈ raising :: waiting, machine.handlerIn? thrown frame = none :=
    List.forall_mem_cons.mpr ⟨unhandled, fun frame member =>
      handlerIn?_of_unstarted (unstarted frame member) (unprotected frame member) thrown⟩
  by_cases none : ∀ frame ∈ callers, machine.handlerIn? thrown frame = none
  · refine .inr ⟨_, unwind_of_unhandled throws ?_⟩
    rw [frames, ← List.cons_append]
    exact List.forall_mem_append.mpr ⟨skipped, none⟩
  · obtain ⟨frame, found⟩ : ∃ frame, callers.find?
        (fun frame => (machine.handlerIn? thrown frame).isSome) = some frame := by
      rw [← Option.isSome_iff_exists, List.find?_isSome]
      simpa only [not_forall, Option.isSome_iff_ne_none, exists_prop] using none
    obtain ⟨handles, passed, outer, rfl, before⟩ := List.find?_eq_some_iff_append.mp found
    obtain ⟨handler, handled⟩ := Option.isSome_iff_exists.mp handles
    have all : machine.exec.frames = (raising :: (waiting ++ passed)) ++ frame :: outer := by
      rw [frames, List.cons_append, List.append_assoc]
    obtain ⟨after, ran, caught⟩ := unwind_of_handled throws all (by
      rw [← List.cons_append]
      refine List.forall_mem_append.mpr ⟨skipped, fun inner member => ?_⟩
      simpa using before inner member) handled
    exact .inl ⟨passed, frame, outer, handler, after, rfl, ran, caught⟩

/-- A method that protects its first instruction catches what an initializer throws before
it has started. -/
theorem unstarted_catches :
    (throwing 0).exec.frames = [⟨⟨⟨0⟩, 1⟩, 0, 7, 8⟩, ⟨⟨⟨0⟩, 0⟩, 0, 3, 4⟩] ∧
      ∃ after, Guest.unwind (Ref.ofIndex 0) (throwing 0) = .ok ⟨⟩ after ∧
        after.exec.frames = [⟨⟨⟨0⟩, 0⟩, 2, 3, 5⟩] := by
  have frames := (tiled_throwing 0).frames_eq
  refine ⟨frames, ?_⟩
  obtain ⟨after, ran, caught⟩ := unwind_of_handled (throws_throwing 0) frames
    (List.forall_mem_singleton.mpr rfl) rfl
  exact ⟨after, ran, caught.frames⟩

end Machine

end Jvm
