import Jvm.Proofs.Machine.Calls
import Jvm.Proofs.Machine.Closed
import Jvm.Proofs.Slots.Tiling

/-!
# Frames of pending calls

Calls, returns and abrupt ends of frames nest, and a frame works on its own
locals and operands. So the calls that have not returned are found on the stack of
the execution: one frame for each, side by side.
-/

namespace Jvm

namespace ClassTable

/-- What a change of classes leaves of their methods if it leaves each class's. -/
theorem method_modify (table : ClassTable) (id : ClassId) {change : Class → Class}
    (same : ∀ cls : Class, (change cls).methods = cls.methods) (method : MethodId) :
    (table.modify id change).method method = table.method method := by
  rw [ClassTable.method, view_modify _ _ _ _ Class.methods same, ClassTable.method]

theorem method_finishInitialization (table : ClassTable) (id : ClassId) (succeeded : Bool)
    (method : MethodId) :
    (table.finishInitialization id succeeded).method method = table.method method := by
  apply finishInitialization_induct (motive := fun after =>
    after.method method = table.method method) rfl
  intro start other kept
  have same : ∀ cls : Class,
      ({ cls with initState := endState succeeded } : Class).methods = cls.methods := fun _ => rfl
  exact (start.method_modify other same method).trans kept

end ClassTable

namespace Machine

section

variable (machine : Machine) (method : MethodId)

@[simp] theorem method_modifyExec (change : Execution → Execution) :
    (machine.modifyExec change).method method = machine.method method := rfl

theorem method_dropFrame (resume : FrameContext → UInt32) :
    (machine.dropFrame resume).method method = machine.method method := rfl

theorem method_setMonitor (monitor : Monitor) (lock : Lock) :
    (machine.setMonitor monitor lock).method method = machine.method method := by
  cases lock with
  | object ref => rfl
  | cls id =>
      have same : ∀ cls : Class, ({ cls with monitor } : Class).methods = cls.methods :=
        fun _ => rfl
      exact ClassTable.method_modify _ id same method

theorem method_exitLock (lock : Lock) :
    (machine.exitLock lock).2.method method = machine.method method := by
  rw [exitLock]
  split
  · exact machine.method_setMonitor method _ lock
  · rfl

theorem method_leaveInitializer (id : MethodId) (succeeded : Bool) :
    (machine.leaveInitializer id succeeded).method method = machine.method method := by
  rw [leaveInitializer]
  split
  · exact machine.registry.method_finishInitialization id.owner succeeded method
  · rfl

theorem method_abandonFrame (id : MethodId) :
    (machine.abandonFrame id).method method = machine.method method := by
  rw [abandonFrame]
  split
  · rw [method_dropFrame, method_leaveInitializer, method_exitLock]
  · rw [method_dropFrame, method_leaveInitializer]

theorem exec_abandonFrame (id : MethodId) :
    (machine.abandonFrame id).exec = machine.exec.leave (·.callerPc) := by
  rw [abandonFrame]
  split
  · rw [exec_dropFrame, exec_leaveInitializer, exec_exitLock]
  · rw [exec_dropFrame, exec_leaveInitializer]

end

/-- A return changes no method. -/
theorem ends_handOver_method {machine : Machine} (id method : MethodId) (value : Value) :
    Ends (Guest.handOver id value) machine
      (fun _ after => after.method method = machine.method method) fun _ _ => True := by
  simp only [Guest.handOver, ends_bind, ends_modify, ends_get]
  split
  · simp only [ends_bind, ends_modify, ends_pure, method_modifyExec, method_dropFrame,
      method_leaveInitializer]
  · simp only [ends_bind, Guest.onStack, ends_modify, ends_pure, modifyStack, method_modifyExec,
      method_dropFrame, method_leaveInitializer]

theorem ends_returnFromFrame_method {machine : Machine} (value : Value) (method : MethodId) :
    Ends (Guest.returnFromFrame value) machine
      (fun _ after => after.method method = machine.method method) fun _ _ => True := by
  cases current : machine.exec.method with
  | none =>
      rw [Guest.returnFromFrame, ends_bind, ends_get]
      simp only [current, Guest.fault, Guest.fatal, ends_throw]
  | some id =>
      apply Guest.ends_returnFromFrame_of_handOver current
      · exact fun _ => ends_handOver_method id method value
      · intro lock _ _
        rw [← machine.method_exitLock method lock]
        exact ends_handOver_method id method value
      · exact fun lock _ _ => (Guest.ends_raise _ _ _).mono (fun _ _ never => never.elim)
          fun _ _ _ => trivial

theorem exec_of_returnFromFrame {machine after : Machine} {value : Value} {step : Step}
    (returns : Guest.returnFromFrame value machine = .ok step after) :
    after.exec = machine.exec.resume value := by
  have ends : Ends (Guest.returnFromFrame value) machine
      (fun _ after => after.exec = machine.exec.resume value) fun _ _ => True := by
    cases current : machine.exec.method with
    | none =>
        rw [Guest.returnFromFrame, ends_bind, ends_get]
        simp only [current, Guest.fault, Guest.fatal, ends_throw]
    | some id =>
        exact (Guest.ends_returnFromFrame value current).mono (fun _ _ ended => ended.1)
          fun _ _ _ => trivial
  have ended := ends_of_ok returns ends
  exact ended

/-- A call that succeeds has found room for the locals and the operands of its frame. -/
theorem ends_pushFrame_room {machine : Machine} (id : MethodId) (callerPc returnPc : UInt32) :
    Ends (Guest.pushFrame id callerPc returnPc) machine
      (fun _ _ => machine.exec.stack.sp + FrameContext.size +
        ((machine.method id).frameLocals - (machine.method id).frameArgSlots.toNat) +
          (machine.method id).maxStack ≤ machine.exec.stack.limit) fun _ _ => True := by
  simp only [Guest.pushFrame, ends_bind, ends_get]
  cases found : (machine.method id).code with
  | none => exact Ends.of_error rfl trivial
  | some code =>
      dsimp only
      split
      · exact Ends.of_error rfl trivial
      · split
        · exact (Guest.ends_raise _ _ _).mono (fun _ _ never => never.elim) fun _ _ _ => trivial
        · next admits =>
            refine Ends.of_ok rfl ?_
            rw [Method.maxStack, found]
            exact Nat.le_of_not_lt admits

end Machine

/-! ## Tiled executions -/

namespace Execution

/-- Whether the stack of an execution consists of the frames of some pending calls, and
its registers are those of the innermost. -/
structure Tiled (exec : Execution) (table : ClassTable) (calls : List PendingCall) : Prop where
  method : exec.method = calls.head?.map PendingCall.method
  startSp : exec.startSp = PendingCall.startOf calls
  tiles : exec.stack.Tiles table calls exec.stack.sp

namespace Tiled

variable {exec after : Execution} {table : ClassTable} {call : PendingCall}
  {calls callers : List PendingCall}

theorem of_idle (host : exec.method = none) (bottom : exec.startSp = 0)
    (empty : exec.stack.sp = 0) : exec.Tiled table [] := by
  refine ⟨host, bottom, ?_⟩
  rw [empty]
  exact .bottom

/-- The walk along the chain finds the pending calls. -/
theorem frames_eq (tiled : exec.Tiled table calls) :
    exec.frames = PendingCall.frames calls exec.pc exec.stack.sp := by
  cases calls with
  | nil =>
      rw [frames, Frame.all.eq_def, tiled.method]
      rfl
  | cons call callers =>
      rw [frames, Frame.all.eq_def, tiled.method, tiled.startSp]
      exact tiled.tiles.chain_eq exec.pc

theorem of_sizes {other : ClassTable} (tiled : exec.Tiled table calls)
    (sizes : ∀ call ∈ calls,
      (other.method call.method).frameLocals = (table.method call.method).frameLocals ∧
        (other.method call.method).maxStack = (table.method call.method).maxStack) :
    exec.Tiled other calls :=
  ⟨tiled.method, tiled.startSp, tiled.tiles.of_sizes sizes⟩

/-- What the current frame does above its start, and leaves above its locals, keeps the
tiling. -/
theorem keep (tiled : exec.Tiled table (call :: callers)) (method : after.method = exec.method)
    (startSp : after.startSp = exec.startSp)
    (keeps : exec.stack.Keeps (exec.startSp + 1) after.stack)
    (above : exec.startSp + 1 + (table.method call.method).frameLocals ≤ after.stack.sp) :
    after.Tiled table (call :: callers) := by
  obtain ⟨current, start, tiles⟩ := tiled
  have first : exec.startSp + 1 = call.locals := congrArg (· + 1) start
  rw [first] at keeps above
  exact ⟨method.trans current, startSp.trans start, tiles.keep keeps.limit keeps.cells above⟩

/-- A call whose arguments lie above the pending calls is pending itself. -/
theorem enter {id : MethodId} (method : exec.method = calls.head?.map PendingCall.method)
    (startSp : exec.startSp = PendingCall.startOf calls)
    (tiles : exec.stack.Tiles table calls
      (exec.stack.sp - (table.method id).frameArgSlots.toNat))
    (claimed : (table.method id).frameArgSlots.toNat ≤ exec.stack.sp)
    (bounded : exec.stack.limit ≤ FrameContext.encodablePositions)
    (encodable : ∀ caller, exec.method = some caller → caller.Encodable)
    (room : exec.stack.sp + FrameContext.size +
      ((table.method id).frameLocals - (table.method id).frameArgSlots.toNat) +
        (table.method id).maxStack ≤ exec.stack.limit) (callerPc returnPc : UInt32) :
    (exec.enter (table.method id) id callerPc returnPc).Tiled table
      (⟨id, exec.stack.sp - (table.method id).frameArgSlots.toNat,
        ⟨exec.method, callerPc, returnPc, exec.startSp⟩⟩ :: calls) := by
  have fits : exec.startSp < FrameContext.encodablePositions := by
    have lower := tiles.startOf_lt
    rw [FrameContext.size] at room
    omega
  refine ⟨rfl, rfl, ?_⟩
  exact tiles.enter claimed (table.method id).frameArgSlots_le_frameLocals ⟨encodable, fits⟩ method
    startSp room

/-- Without its innermost frame, an execution consists of the frames of the callers. -/
theorem leave (tiled : exec.Tiled table (call :: callers)) (resume : FrameContext → UInt32) :
    (exec.leave resume).Tiled table callers := by
  obtain ⟨-, start, tiles⟩ := tiled
  have current : exec.startSp = call.startSp := start
  cases tiles with
  | frame below saved scalar caller callerStart covers admitted =>
      rw [← current] at saved
      have cut : (exec.leave resume).stack = exec.stack.setSp call.base := by
        simp only [Execution.leave, current, PendingCall.base_startSp]
      refine ⟨?_, ?_, ?_⟩
      · simp only [Execution.leave, saved]
        exact caller
      · simp only [Execution.leave, saved]
        exact callerStart
      · rw [cut, Stack.sp_setSp]
        exact below.congr (Stack.limit_setSp _ _) fun index inside =>
          Stack.cell_setSp_of_lt _ _ _ inside

/-- A value is handed to the caller, or to the host. -/
theorem resume (tiled : exec.Tiled table (call :: callers)) (value : Value) :
    (exec.resume value).Tiled table callers := by
  have left := tiled.leave (·.returnPc)
  cases callers with
  | nil =>
      rw [resume_of_idle left.method]
      exact ⟨left.method, rfl, left.tiles⟩
  | cons caller callers =>
      rw [resume_of_busy left.method]
      have room : (exec.leave (·.returnPc)).startSp + 1 +
          (table.method caller.method).frameLocals ≤ (exec.leave (·.returnPc)).stack.sp := by
        rw [left.startSp]
        exact left.tiles.floor_le
      have keeps := Stack.keeps_pushValue (Nat.le_of_add_right_le room) value
      refine left.keep rfl rfl keeps (Nat.le_trans room ?_)
      exact (Stack.sp_pushValue _ value).symm ▸ Nat.le_add_right _ _

end Tiled

theorem limit_resume (exec : Execution) (value : Value) :
    (exec.resume value).stack.limit = exec.stack.limit := by
  rw [Execution.resume]
  split
  · exact Stack.limit_setSp _ _
  · exact (Stack.limit_pushValue _ value).trans (Stack.limit_setSp _ _)

end Execution

namespace Machine

/-! ## Nesting -/

/-- Whether a machine has come to some pending calls, innermost first, from an idle one
by calls, returns, abrupt ends of frames and work of its current frames. The work of a
frame stays above the start of the frame, and leaves its operands above its locals; a
call takes its arguments from the operands. -/
inductive Nests : Machine → List PendingCall → Prop
  | idle {machine : Machine} (host : machine.exec.method = none)
      (bottom : machine.exec.startSp = 0) (empty : machine.exec.stack.sp = 0) : Nests machine []
  | work {machine after : Machine} {call : PendingCall} {callers : List PendingCall}
      (nests : Nests machine (call :: callers)) (method : after.exec.method = machine.exec.method)
      (startSp : after.exec.startSp = machine.exec.startSp)
      (keeps : machine.exec.stack.Keeps (machine.exec.startSp + 1) after.exec.stack)
      (above : machine.exec.startSp + 1 + (machine.method call.method).frameLocals ≤
        after.exec.stack.sp)
      (sizes : ∀ pending ∈ call :: callers,
        (after.method pending.method).frameLocals = (machine.method pending.method).frameLocals ∧
          (after.method pending.method).maxStack = (machine.method pending.method).maxStack) :
      Nests after (call :: callers)
  | host {machine entered : Machine} {arguments : List Value} {id : MethodId}
      {callerPc returnPc : UInt32} (nests : Nests machine [])
      (fits : (arguments.map Value.slots).sum = (machine.method id).frameArgSlots.toNat)
      (enters : Guest.pushFrame id callerPc returnPc
        (machine.modifyStack fun stack => arguments.foldl Stack.pushValue stack) =
          .ok ⟨⟩ entered) :
      Nests entered [⟨id, 0, ⟨none, callerPc, returnPc, 0⟩⟩]
  | call {machine entered : Machine} {caller : PendingCall} {callers : List PendingCall}
      {id : MethodId} {callerPc returnPc : UInt32} (nests : Nests machine (caller :: callers))
      (encodable : caller.method.Encodable)
      (above : machine.exec.startSp + 1 + (machine.method caller.method).frameLocals +
        (machine.method id).frameArgSlots.toNat ≤ machine.exec.stack.sp)
      (enters : Guest.pushFrame id callerPc returnPc machine = .ok ⟨⟩ entered) :
      Nests entered
        (⟨id, machine.exec.stack.sp - (machine.method id).frameArgSlots.toNat,
          ⟨some caller.method, callerPc, returnPc, caller.startSp⟩⟩ :: caller :: callers)
  | leave {machine after : Machine} {call : PendingCall} {callers : List PendingCall}
      {value : Value} {step : Step} (nests : Nests machine (call :: callers))
      (returns : Guest.returnFromFrame value machine = .ok step after) : Nests after callers
  | abandon {machine : Machine} {call : PendingCall} {callers : List PendingCall}
      (nests : Nests machine (call :: callers)) : Nests (machine.abandonFrame call.method) callers
  | reset {machine : Machine} {calls : List PendingCall} (nests : Nests machine calls) :
      Nests (machine.modifyExec Execution.reset) []

theorem limit_of_pushFrame {machine entered : Machine} {id : MethodId} {callerPc returnPc : UInt32}
    (enters : Guest.pushFrame id callerPc returnPc machine = .ok ⟨⟩ entered) :
    entered.exec.stack.limit = machine.exec.stack.limit := by
  obtain ⟨-, -, rfl⟩ := ends_of_ok enters Guest.ends_pushFrame
  exact Stack.limit_enterFrame ..

theorem tiled_of_pushFrame {machine entered : Machine} {id : MethodId}
    {callerPc returnPc : UInt32} {calls : List PendingCall}
    (enters : Guest.pushFrame id callerPc returnPc machine = .ok ⟨⟩ entered)
    (method : machine.exec.method = calls.head?.map PendingCall.method)
    (startSp : machine.exec.startSp = PendingCall.startOf calls)
    (tiles : machine.exec.stack.Tiles machine.registry.toClassTable calls
      (machine.exec.stack.sp - (machine.method id).frameArgSlots.toNat))
    (bounded : machine.exec.stack.limit ≤ FrameContext.encodablePositions)
    (encodable : ∀ caller, machine.exec.method = some caller → caller.Encodable) :
    entered.exec.Tiled entered.registry.toClassTable
      (⟨id, machine.exec.stack.sp - (machine.method id).frameArgSlots.toNat,
        ⟨machine.exec.method, callerPc, returnPc, machine.exec.startSp⟩⟩ :: calls) := by
  have room := ends_of_ok enters (ends_pushFrame_room id callerPc returnPc)
  obtain ⟨claimed, -, rfl⟩ := ends_of_ok enters Guest.ends_pushFrame
  exact Execution.Tiled.enter method startSp tiles claimed bounded encodable room callerPc returnPc

/-- Nested calls tile the stack. -/
theorem Nests.tiled {machine : Machine} {calls : List PendingCall} (nests : machine.Nests calls)
    (bounded : machine.exec.stack.limit ≤ FrameContext.encodablePositions) :
    machine.exec.Tiled machine.registry.toClassTable calls := by
  induction nests with
  | idle host bottom empty => exact .of_idle host bottom empty
  | work nests method startSp keeps above sizes ih =>
      have tiled := ih (keeps.limit ▸ bounded)
      exact (tiled.keep method startSp keeps above).of_sizes sizes
  | @host machine entered arguments id callerPc returnPc nests fits enters ih =>
      let staged := machine.modifyStack fun stack => arguments.foldl Stack.pushValue stack
      have limit : entered.exec.stack.limit = staged.exec.stack.limit := limit_of_pushFrame enters
      have kept : staged.exec.stack.limit = machine.exec.stack.limit := Stack.limit_pushValues _ _
      obtain ⟨current, start, tiles⟩ := ih (kept ▸ limit ▸ bounded)
      have claims : staged.exec.stack.sp - (staged.method id).frameArgSlots.toNat = 0 := by
        have raised : staged.exec.stack.sp = _ := Stack.sp_pushValues machine.exec.stack arguments
        rw [raised, tiles.eq_zero, Nat.zero_add, fits]
        exact Nat.sub_self _
      have nothing : staged.exec.stack.Tiles staged.registry.toClassTable []
          (staged.exec.stack.sp - (staged.method id).frameArgSlots.toNat) := by
        rw [claims]
        exact .bottom
      have registers : staged.exec.method = none := current
      have bottom : staged.exec.startSp = 0 := start
      have framed := @tiled_of_pushFrame staged _ id callerPc returnPc [] enters registers bottom
        nothing (limit ▸ bounded) fun caller busy => by cases registers.symm.trans busy
      rw [claims, registers, bottom] at framed
      exact framed
  | @call machine entered caller callers id callerPc returnPc nests encodable above enters ih =>
      have limit : entered.exec.stack.limit = machine.exec.stack.limit := limit_of_pushFrame enters
      obtain ⟨current, start, tiles⟩ := ih (limit ▸ bounded)
      have first : machine.exec.startSp + 1 = caller.locals := congrArg (· + 1) start
      rw [first] at above
      have below : machine.exec.stack.Tiles machine.registry.toClassTable (caller :: callers)
          (machine.exec.stack.sp - (machine.method id).frameArgSlots.toNat) :=
        tiles.keep rfl (fun _ _ => rfl) (Nat.le_sub_of_add_le above)
      have framed := tiled_of_pushFrame enters current start below (limit ▸ bounded) (by
        intro found busy
        cases current.symm.trans busy
        exact encodable)
      rw [current, start] at framed
      exact framed
  | leave nests returns ih =>
      have exec := exec_of_returnFromFrame returns
      rw [exec] at bounded ⊢
      rw [Execution.limit_resume] at bounded
      refine ((ih bounded).resume _).of_sizes fun pending _ => ?_
      have same := ends_of_ok returns (ends_returnFromFrame_method _ pending.method)
      exact ⟨congrArg Method.frameLocals same, congrArg Method.maxStack same⟩
  | @abandon machine call callers nests ih =>
      rw [exec_abandonFrame] at bounded ⊢
      have limit : (machine.exec.leave (·.callerPc)).stack.limit = machine.exec.stack.limit :=
        Stack.limit_setSp _ _
      refine ((ih (limit ▸ bounded)).leave _).of_sizes fun pending _ => ?_
      have same := machine.method_abandonFrame pending.method call.method
      exact ⟨congrArg Method.frameLocals same, congrArg Method.maxStack same⟩
  | reset nests ih => exact .of_idle rfl rfl rfl

/-- Frames tile the stack. Nested calls whose frames start where a saved start has room are
found by the walk along the chain, each caller at the pc of its call; their frames are the
slots below the top, one after the other; each of them has room for its locals and, within
the limit, for its operands; and the roots of the execution are the references in their
locals and operands, with the exception kept back and the thread object. A walk along the
chain of any stack goes down and ends. -/
theorem frames_tile {machine : Machine} {calls : List PendingCall} (nests : machine.Nests calls)
    (bounded : machine.exec.stack.limit ≤ FrameContext.encodablePositions) :
    machine.exec.frames = PendingCall.frames calls machine.exec.pc machine.exec.stack.sp ∧
      machine.exec.frames.reverse.flatMap Frame.span = List.range machine.exec.stack.sp ∧
      (∀ frame ∈ machine.exec.frames,
        frame.locals + (machine.method frame.method).frameLocals ≤ frame.top ∧
          frame.locals + (machine.method frame.method).frameLocals +
            (machine.method frame.method).maxStack ≤ machine.exec.stack.limit) ∧
      machine.exec.roots =
        machine.exec.frames.reverse.flatMap (Frame.refs machine.exec.stack) ++
          machine.exec.pendingException.toList ++ machine.exec.threadObject.toList ∧
      ∀ (stack : Stack) (frame : Frame),
        (frame.chain stack).Pairwise (fun inner outer => outer.startSp < inner.startSp) ∧
          (frame.chain stack).length ≤ frame.startSp + 1 := by
  have tiled := nests.tiled bounded
  have frames := tiled.frames_eq
  refine ⟨frames, ?_, ?_, ?_, ?_⟩
  · rw [frames]
    exact tiled.tiles.flatMap_span machine.exec.pc
  · rw [frames]
    exact tiled.tiles.roomy machine.exec.pc
  · rw [Execution.roots, frames, tiled.tiles.refs_eq machine.exec.pc]
  · exact fun stack frame => ⟨frame.pairwise_chain stack, frame.length_chain_le stack⟩

/-! ## A method that calls itself -/

section

variable {stack other : Stack} {startSp limit : Nat} {call : PendingCall}
  {callers : List PendingCall}

/-- The method called by the host. -/
def outermost : PendingCall := ⟨⟨⟨0⟩, 0⟩, 0, ⟨none, 5, 8, 0⟩⟩

/-- The host may call the method with arguments of two slots. -/
theorem nests_hosted {arguments : List Value} (slots : (arguments.map Value.slots).sum = 2)
    (empty : stack.sp = 0) (roomy : 9 ≤ stack.limit) :
    (recursing ((arguments.foldl Stack.pushValue stack).enterFrame ⟨none, 5, 8, 0⟩ 2 3) 3).Nests
      [outermost] := by
  have idle : (recursion none stack 0).Nests [] := .idle rfl rfl empty
  have fits : (arguments.map Value.slots).sum =
      ((recursion none stack 0).method ⟨⟨0⟩, 0⟩).frameArgSlots.toNat :=
    slots.trans frameArgSlots_recursive.symm
  have top : (arguments.foldl Stack.pushValue stack).sp = 2 := by
    rw [Stack.sp_pushValues, empty, slots]
  have bound := stack.limit_pushValues arguments
  have enters := pushFrame_recursion none (arguments.foldl Stack.pushValue stack) 0 (by omega)
    (by omega)
  rw [enter_recursion, top] at enters
  exact idle.host fits enters

/-- The method may work above its start. -/
theorem nests_work (nests : (recursing stack startSp).Nests (call :: callers))
    (method : call.method = ⟨⟨0⟩, 0⟩) (keeps : stack.Keeps (startSp + 1) other)
    (above : startSp + 4 ≤ other.sp) : (recursing other startSp).Nests (call :: callers) := by
  refine nests.work rfl rfl keeps ?_ fun pending _ => ?_
  · rw [method]
    exact frameLocals_recursive ▸ above
  · have same : (recursing other startSp).method pending.method =
        (recursing stack startSp).method pending.method := rfl
    rw [same]
    exact ⟨rfl, rfl⟩

/-- The method may call itself. -/
theorem nests_recall (nests : (recursing stack startSp).Nests (call :: callers))
    (method : call.method = ⟨⟨0⟩, 0⟩) (above : startSp + 6 ≤ stack.sp)
    (roomy : stack.sp + 7 ≤ stack.limit) :
    (recursing (stack.enterFrame ⟨some ⟨⟨0⟩, 0⟩, 5, 8, startSp⟩ 2 3) (stack.sp - 2 + 3)).Nests
      (⟨⟨⟨0⟩, 0⟩, stack.sp - 2, ⟨some call.method, 5, 8, call.startSp⟩⟩ :: call :: callers) := by
  have enters := pushFrame_recursion (some ⟨⟨0⟩, 0⟩) stack startSp (by omega) roomy
  rw [enter_recursion] at enters
  have arguments : ((recursing stack startSp).method ⟨⟨0⟩, 0⟩).frameArgSlots.toNat = 2 :=
    frameArgSlots_recursive
  have locals : ((recursing stack startSp).method call.method).frameLocals = 3 :=
    method ▸ frameLocals_recursive
  have top : (recursing stack startSp).exec.stack.sp = stack.sp := rfl
  have room : (recursing stack startSp).exec.startSp + 1 +
      ((recursing stack startSp).method call.method).frameLocals +
        ((recursing stack startSp).method ⟨⟨0⟩, 0⟩).frameArgSlots.toNat ≤
          (recursing stack startSp).exec.stack.sp := by
    rw [locals, arguments, top]
    exact above
  have framed := nests.call (method ▸ MethodId.encodable_of_lt (by decide)) room enters
  rw [arguments, top] at framed
  exact framed

end

/-- The stack after the host has called the method. -/
def hosted : Stack :=
  ([Value.int 1, Value.int 2].foldl Stack.pushValue (Stack.ofLimit 64)).enterFrame ⟨none, 5, 8, 0⟩
    2 3

/-- The stack after the method has pushed a reference and two arguments. -/
def working : Stack := ((hosted.pushRef (Ref.ofSlot 7)).push 3).push 4

/-- The machine after the method has called itself. -/
def recalled : Machine := recursing (working.enterFrame ⟨some ⟨⟨0⟩, 0⟩, 5, 8, 3⟩ 2 3) 11

theorem frames_tile_recalled :
    Guest.pushFrame ⟨⟨0⟩, 0⟩ 5 8 (recursing working 3) = .ok ⟨⟩ recalled ∧
      recalled.exec.frames = [⟨⟨⟨0⟩, 0⟩, 0, 11, 15⟩, ⟨⟨⟨0⟩, 0⟩, 5, 3, 8⟩] ∧
      recalled.exec.roots = (Ref.ofSlot 7).toList := by
  have enters := pushFrame_recursion (some ⟨⟨0⟩, 0⟩) working 3 (by decide) (by decide)
  rw [enter_recursion] at enters
  have keeps : hosted.Keeps 4 working := by
    have first := Stack.keeps_pushRef (show 4 ≤ hosted.sp by decide) (Ref.ofSlot 7)
    have second := first.trans (Stack.keeps_push first.room 3)
    exact second.trans (Stack.keeps_push second.room 4)
  have works := nests_work (nests_hosted rfl rfl (by decide)) rfl keeps (by decide)
  have nests : recalled.Nests [⟨⟨⟨0⟩, 0⟩, 8, ⟨some ⟨⟨0⟩, 0⟩, 5, 8, 3⟩⟩, outermost] :=
    nests_recall works rfl (by decide) (by decide)
  obtain ⟨frames, -, -, roots, -⟩ := frames_tile nests (by decide)
  refine ⟨enters, frames, ?_⟩
  rw [frames] at roots
  exact roots.trans (by decide +kernel)

/-- A caller that is read back from a slot with another start is not found. -/
theorem frames_of_start_lost {stack : Stack} {startSp : Nat} (claimed : 2 ≤ stack.sp)
    (lost : stack.sp + 1 ≤ FrameContext.position (UInt32.ofNat startSp)) :
    (recursing (stack.enterFrame ⟨some ⟨⟨0⟩, 0⟩, 5, 8, startSp⟩ 2 3)
      (stack.sp - 2 + 3)).exec.frames.length = 1 := by
  have saved := stack.read_enterFrame ⟨some ⟨⟨0⟩, 0⟩, 5, 8, startSp⟩ 2 3 claimed (by decide)
  have start : (FrameContext.read (stack.enterFrame ⟨some ⟨⟨0⟩, 0⟩, 5, 8, startSp⟩ 2 3)
      (stack.sp - 2 + 3)).callerStartSp = FrameContext.position (UInt32.ofNat startSp) :=
    congrArg FrameContext.callerStartSp saved
  have high : ¬FrameContext.position (UInt32.ofNat startSp) < stack.sp - 2 + 3 := by omega
  rw [Execution.frames, Frame.all.eq_def]
  refine congrArg List.length (Frame.chain_of_host _ ?_)
  simp only [Frame.caller?, recursing, recursion, start, if_neg high]

/-- Two more calls of the method, from high operands, lose the frames below. -/
theorem frames_lost_of_high {bottom : Stack} {high : Nat}
    (nests : (recursing bottom 3).Nests [outermost]) (above : 9 ≤ high)
    (roomy : high + 14 ≤ bottom.limit)
    (lost : high + 8 ≤ FrameContext.position (UInt32.ofNat (high + 1))) :
    ∃ (machine : Machine) (calls : List PendingCall), machine.Nests calls ∧
      (∀ call ∈ calls, call.method.Encodable) ∧ calls.length = 3 ∧
      machine.exec.frames.length = 1 := by
  let filled : Stack := { bottom with sp := high }
  have first := nests_recall (nests_work nests rfl
    (Stack.keeps_top (Nat.le_trans (by decide) above)) (Nat.le_trans (by decide) above))
    rfl (above : 9 ≤ filled.sp) (Nat.le_trans (Nat.add_le_add_left (by decide) high) roomy)
  have start : filled.sp - 2 + 3 = high + 1 := by
    change high - 2 + 3 = high + 1
    omega
  rw [start] at first
  let refilled : Stack :=
    { filled.enterFrame ⟨some ⟨⟨0⟩, 0⟩, 5, 8, 3⟩ 2 3 with sp := high + 7 }
  have limit : refilled.limit = bottom.limit := filled.limit_enterFrame ..
  have admits : refilled.sp + 7 ≤ refilled.limit := limit ▸ roomy
  have clear : high + 1 + 1 ≤ high + 7 := by omega
  have free : high + 1 + 4 ≤ refilled.sp := by
    change high + 1 + 4 ≤ high + 7
    omega
  have second := nests_recall (nests_work first rfl (Stack.keeps_top clear) free) rfl
    (Nat.le_refl (high + 7)) admits
  have encodable : MethodId.Encodable ⟨⟨0⟩, 0⟩ := MethodId.encodable_of_lt (by decide)
  refine ⟨_, _, second, ?_, rfl, frames_of_start_lost (Nat.le_add_left 2 (high + 5)) lost⟩
  exact List.forall_mem_cons.mpr ⟨encodable, List.forall_mem_cons.mpr ⟨encodable,
    List.forall_mem_cons.mpr ⟨encodable, List.forall_mem_nil _⟩⟩⟩

/-- The walk along the chain loses the callers of a frame that was called from one that
starts above 2147483648. -/
theorem frames_beyond_slots :
    ∃ (machine : Machine) (calls : List PendingCall), machine.Nests calls ∧
      (∀ call ∈ calls, call.method.Encodable) ∧ calls.length = 3 ∧
      machine.exec.frames.length = 1 := by
  have slots : ([Value.int 1, Value.int 2].map Value.slots).sum = 2 := rfl
  have roomy : 9 ≤ (Stack.ofLimit 8589934592).limit := Nat.le_of_ble_eq_true rfl
  have limit : ([Value.int 1, Value.int 2].foldl Stack.pushValue
      (Stack.ofLimit 8589934592)).limit = 8589934592 := Stack.limit_pushValues _ _
  apply frames_lost_of_high (nests_hosted slots rfl roomy) (Nat.le_of_ble_eq_true rfl : 9 ≤ 2147483650)
  · rw [Stack.limit_enterFrame, limit]
    exact Nat.le_of_ble_eq_true rfl
  · exact Nat.le_of_ble_eq_true rfl

end Machine

end Jvm
