import Jvm.Machine.Frames
import Jvm.Proofs.Machine.Allocation
import Jvm.Proofs.Slots.Frame

/-!
# Balanced calls

A call makes the arguments the first locals of a new frame, and a return removes
the frame and leaves the value in their place. In between the frame may do what
it likes at or above its first local, further calls included: it is the cells
below that a return relies on. They hold what the caller had there and the saved
context, which has room for callers whose class id and frame start are small
enough.
-/

namespace Jvm

namespace Execution

/-- The registers and the stack that a call of a method enters. -/
def enter (exec : Execution) (method : Method) (id : MethodId) (callerPc returnPc : UInt32) :
    Execution :=
  { exec with
    stack := exec.stack.enterFrame ⟨exec.method, callerPc, returnPc, exec.startSp⟩
      method.frameArgSlots.toNat method.frameLocals
    method := some id
    pc := 0
    startSp := exec.stack.sp - method.frameArgSlots.toNat + FrameContext.size - 1 }

/-- Whether the stack has room for a call of a method with code. -/
def Admits (exec : Execution) (method : Method) (code : Code) : Prop :=
  exec.stack.sp + FrameContext.size + (method.frameLocals - method.frameArgSlots.toNat) +
    code.maxStack.toNat ≤ exec.stack.limit

/-- The registers and the stack without the current frame. -/
def leave (exec : Execution) (resume : FrameContext → UInt32) : Execution :=
  let context := FrameContext.read exec.stack exec.startSp
  { exec with
    stack := exec.stack.setSp (FrameContext.base exec.startSp)
    method := context.caller
    pc := resume context
    startSp := context.callerStartSp }

/-- The registers and the stack after the current frame returned a value. -/
def resume (exec : Execution) (value : Value) : Execution :=
  let left := exec.leave (·.returnPc)
  if left.isIdle then { left with pc := 0, startSp := 0 }
  else { left with stack := left.stack.pushValue value }

theorem isIdle_of_host {exec : Execution} (host : exec.method = none) : exec.isIdle = true := by
  rw [isIdle, host]
  rfl

theorem isIdle_of_method {exec : Execution} {id : MethodId} (busy : exec.method = some id) :
    exec.isIdle = false := by
  rw [isIdle, busy]
  rfl

theorem resume_of_idle {exec : Execution} (idle : (exec.leave (·.returnPc)).method = none)
    (value : Value) :
    exec.resume value = { exec.leave (·.returnPc) with pc := 0, startSp := 0 } :=
  if_pos (isIdle_of_host idle)

theorem resume_of_busy {exec : Execution} {id : MethodId}
    (busy : (exec.leave (·.returnPc)).method = some id) (value : Value) :
    exec.resume value =
      { exec.leave (·.returnPc) with
        stack := (exec.leave (·.returnPc)).stack.pushValue value } := by
  rw [resume, isIdle_of_method busy, if_neg Bool.false_ne_true]

/-- Whether a later state of an execution is in the same frame and agrees below
the first local of it. -/
structure SameFrame (before after : Execution) : Prop where
  method : after.method = before.method
  startSp : after.startSp = before.startSp
  cells : ∀ index ≤ before.startSp, after.stack.cell index = before.stack.cell index

namespace SameFrame

variable {first second third : Execution}

theorem refl (exec : Execution) : SameFrame exec exec := ⟨rfl, rfl, fun _ _ => rfl⟩

theorem trans (left : SameFrame first second) (right : SameFrame second third) :
    SameFrame first third where
  method := right.method.trans left.method
  startSp := right.startSp.trans left.startSp
  cells index below := by
    have inside : index ≤ second.startSp := by
      rw [left.startSp]
      exact below
    exact (right.cells index inside).trans (left.cells index below)

end SameFrame

end Execution

theorem Method.frameArgSlots_le_frameLocals (method : Method) :
    method.frameArgSlots.toNat ≤ method.frameLocals := by
  rw [frameLocals]
  cases method.code with
  | none => exact Nat.le_refl _
  | some code => exact Nat.le_max_right _ _

namespace Stack

theorem getElem?_toList (stack : Stack) (index : Nat) :
    stack.toList[index]? = if index < stack.sp then some (stack.cell index) else none := by
  rw [toList, getElem?_cells, Nat.zero_add]

section

variable {left right : Stack} {size : Nat} (inside : size ≤ right.sp)

include inside

/-- Cutting a stack leaves the slots below the cut. -/
theorem toList_setSp (same : ∀ index < size, left.cell index = right.cell index) :
    (left.setSp size).toList = right.toList.take size := by
  have cut : right.toList.take size = (right.setSp size).toList := by
    apply List.ext_getElem?
    intro index
    rw [List.getElem?_take, getElem?_toList, getElem?_toList, sp_setSp]
    by_cases below : index < size
    · rw [if_pos below, if_pos (Nat.lt_of_lt_of_le below inside), if_pos below,
        cell_setSp_of_lt right index size below]
    · rw [if_neg below, if_neg below]
  rw [cut]
  apply toList_eq_of_cell_eq
  · rw [sp_setSp, sp_setSp]
  · intro index below
    rw [sp_setSp] at below
    rw [cell_setSp_of_lt left index size below, cell_setSp_of_lt right index size below]
    exact same index below

/-- Stacks whose slots agree up to a point have the same cells up to there. -/
theorem cell_eq_of_toList_eq {above : List TaggedSlot}
    (slots : left.toList = right.toList.take size ++ above) {index : Nat} (below : index < size) :
    left.cell index = right.cell index := by
  have length := congrArg List.length slots
  have slot := congrArg (·[index]?) slots
  have cut : index < (right.toList.take size).length := by
    rw [List.length_take, toList, length_cells]
    exact Nat.lt_min.mpr ⟨below, Nat.lt_of_lt_of_le below inside⟩
  have held : index < left.sp := by
    rw [toList, length_cells, List.length_append] at length
    omega
  simp only [List.getElem?_append_left cut, List.getElem?_take_of_lt below, getElem?_toList] at slot
  rw [if_pos held, if_pos (Nat.lt_of_lt_of_le below inside)] at slot
  exact Option.some.inj slot

end

end Stack

namespace Execution

section

variable {exec left : Execution} {method : Method} {id : MethodId} {callerPc returnPc : UInt32}

theorem startSp_enter :
    (exec.enter method id callerPc returnPc).startSp =
      exec.stack.sp - method.frameArgSlots.toNat + 3 :=
  rfl

variable (claimed : method.frameArgSlots.toNat ≤ exec.stack.sp)

include claimed

/-- The first locals of a frame are the arguments; the others are zero. -/
theorem cell_localSlot_enter {index : Nat} (inside : index < method.frameLocals) :
    (exec.enter method id callerPc returnPc).stack.cell
        ((exec.enter method id callerPc returnPc).localSlot index) =
      if index < method.frameArgSlots.toNat then
        exec.stack.cell (exec.stack.sp - method.frameArgSlots.toNat + index)
      else (0, false) := by
  rw [localSlot, startSp_enter]
  exact exec.stack.cell_enterFrame_local _ _ _ index claimed method.frameArgSlots_le_frameLocals
    inside

variable (same : (exec.enter method id callerPc returnPc).SameFrame left)

include same

theorem base_startSp : FrameContext.base left.startSp =
    exec.stack.sp - method.frameArgSlots.toNat := by
  rw [same.startSp, startSp_enter, FrameContext.base, if_pos (by omega)]
  omega

/-- A frame finds the context that its call saved. -/
theorem read_of_sameFrame :
    FrameContext.read left.stack left.startSp =
      FrameContext.decoded ⟨exec.method, callerPc, returnPc, exec.startSp⟩ := by
  rw [same.startSp, startSp_enter]
  rw [← exec.stack.read_enterFrame _ _ method.frameLocals claimed
    method.frameArgSlots_le_frameLocals]
  apply FrameContext.read_congr
  intro index above below
  apply Stack.raw_eq_of_cell_eq
  apply same.cells
  rw [startSp_enter]
  exact Nat.le_of_lt_succ below

/-- What lies below the arguments is still what the caller had there. -/
theorem cell_of_sameFrame {index : Nat}
    (below : index < exec.stack.sp - method.frameArgSlots.toNat) :
    left.stack.cell index = exec.stack.cell index := by
  have inside : index ≤ (exec.enter method id callerPc returnPc).startSp := by
    rw [startSp_enter]
    omega
  rw [same.cells index inside]
  exact exec.stack.cell_enterFrame_of_lt _ _ _ index claimed method.frameArgSlots_le_frameLocals
    below

theorem toList_leave (resume : FrameContext → UInt32) :
    (left.leave resume).stack.toList =
      exec.stack.toList.take (exec.stack.sp - method.frameArgSlots.toNat) := by
  simp only [leave, base_startSp claimed same]
  exact Stack.toList_setSp (Nat.sub_le _ _) fun index below => cell_of_sameFrame claimed same below

/-- A return to the host leaves an idle execution. -/
theorem resume_of_host (host : exec.method = none) (value : Value) :
    (left.resume value).method = none ∧ (left.resume value).pc = 0 ∧
      (left.resume value).startSp = 0 ∧
      (left.resume value).stack.toList =
        exec.stack.toList.take (exec.stack.sp - method.frameArgSlots.toNat) := by
  have caller : (left.leave (·.returnPc)).method = none := by
    simp only [leave, read_of_sameFrame claimed same]
    exact FrameContext.decoded_caller_of_host host
  rw [resume_of_idle caller]
  exact ⟨caller, rfl, rfl, toList_leave claimed same (·.returnPc)⟩

/-- A return to a method makes that current, at the start that its slot denotes. -/
theorem resume_of_method {caller : MethodId} (called : exec.method = some caller)
    (encodable : caller.Encodable) (value : Value) :
    (left.resume value).method = some caller ∧ (left.resume value).pc = returnPc ∧
      (left.resume value).startSp = FrameContext.position (UInt32.ofNat exec.startSp) ∧
      (left.resume value).stack.toList =
        exec.stack.toList.take (exec.stack.sp - method.frameArgSlots.toNat) ++ value.cells := by
  have context := read_of_sameFrame claimed same
  have restored : (left.leave (·.returnPc)).method = some caller := by
    have exact : FrameContext.caller (.decoded ⟨exec.method, callerPc, returnPc, exec.startSp⟩) =
        exec.method := by
      apply FrameContext.decoded_caller
      intro id found
      cases called.symm.trans found
      exact encodable
    simp only [leave, context]
    exact exact.trans called
  rw [resume_of_busy restored]
  have pc : (left.leave (·.returnPc)).pc = returnPc := by
    simp only [leave, context, FrameContext.decoded]
  have startSp : (left.leave (·.returnPc)).startSp =
      FrameContext.position (UInt32.ofNat exec.startSp) := by
    simp only [leave, context, FrameContext.decoded]
  refine ⟨restored, pc, startSp, ?_⟩
  rw [Stack.toList_pushValue, toList_leave claimed same]

/-- A return to a method whose frame start fits a slot restores that frame. -/
theorem resume_of_caller {caller : MethodId} (called : exec.method = some caller)
    (encodable : caller.Encodable) (fits : exec.startSp < FrameContext.encodablePositions)
    (value : Value) :
    (left.resume value).method = some caller ∧ (left.resume value).pc = returnPc ∧
      (left.resume value).startSp = exec.startSp ∧
      (left.resume value).stack.toList =
        exec.stack.toList.take (exec.stack.sp - method.frameArgSlots.toNat) ++ value.cells := by
  have resumed := resume_of_method claimed same called encodable value
  rw [FrameContext.position_ofNat fits] at resumed
  exact resumed

end

end Execution

namespace Guest

section

variable {machine : Machine} {id : MethodId} {callerPc returnPc : UInt32}

/-- A call with its arguments on the stack and enough room enters a frame. -/
theorem pushFrame_of_admits {code : Code} (found : (machine.method id).code = some code)
    (claimed : (machine.method id).frameArgSlots.toNat ≤ machine.exec.stack.sp)
    (admits : machine.exec.Admits (machine.method id) code) :
    pushFrame id callerPc returnPc machine =
      .ok ⟨⟩ (machine.modifyExec fun exec =>
        exec.enter (machine.method id) id callerPc returnPc) := by
  rw [Execution.Admits] at admits
  simp only [pushFrame, bind, EStateM.bind, run_get, found]
  rw [if_neg (Nat.not_lt_of_le claimed), if_neg (Nat.not_lt_of_le admits)]
  rfl

/-- A call either enters a frame or leaves the registers and the stack alone. -/
theorem ends_pushFrame :
    Ends (pushFrame id callerPc returnPc) machine
      (fun _ after => (machine.method id).frameArgSlots.toNat ≤ machine.exec.stack.sp ∧
        machine.exec.stack.sp ≤ machine.exec.stack.limit ∧
        after = machine.modifyExec fun exec =>
          exec.enter (machine.method id) id callerPc returnPc)
      fun _ after => after.exec = machine.exec := by
  simp only [pushFrame, ends_bind, ends_get]
  cases (machine.method id).code with
  | none => exact Ends.of_error rfl rfl
  | some code =>
      dsimp only
      split
      next => exact Ends.of_error rfl rfl
      next claimed =>
          split
          · exact (ends_raise _ _ machine).mono (fun _ _ never => never.elim) fun _ _ same => same
          · next admits => exact Ends.of_ok rfl ⟨Nat.le_of_not_lt claimed, by omega, rfl⟩

end

end Guest

namespace Machine

variable (machine : Machine)

@[simp] theorem exec_setMonitor (monitor : Monitor) (lock : Lock) :
    (machine.setMonitor monitor lock).exec = machine.exec := by
  cases lock <;> rfl

@[simp] theorem exec_exitLock (lock : Lock) : (machine.exitLock lock).2.exec = machine.exec := by
  rw [exitLock]
  split
  · exact machine.exec_setMonitor _ _
  · rfl

@[simp] theorem exec_leaveInitializer (id : MethodId) (succeeded : Bool) :
    (machine.leaveInitializer id succeeded).exec = machine.exec := by
  rw [leaveInitializer]
  split <;> rfl

theorem exec_dropFrame (resume : FrameContext → UInt32) :
    (machine.dropFrame resume).exec = machine.exec.leave resume := rfl

end Machine

namespace Guest

section

variable {machine : Machine} {id : MethodId}

/-- A return releases the lock of the frame first, if it has one. -/
theorem ends_returnFromFrame_of_handOver {value : Value} {returned : Step → Machine → Prop}
    {thrown : Throw → Machine → Prop} (current : machine.exec.method = some id)
    (free : machine.frameLock? id = none → Ends (handOver id value) machine returned thrown)
    (held : ∀ lock, machine.frameLock? id = some lock → (machine.exitLock lock).1 = true →
      Ends (handOver id value) (machine.exitLock lock).2 returned thrown)
    (refused : ∀ lock, machine.frameLock? id = some lock → (machine.exitLock lock).1 = false →
      Ends (raise .illegalMonitorStateException none : Guest PUnit) (machine.exitLock lock).2
        (fun _ _ => False) thrown) :
    Ends (returnFromFrame value) machine returned thrown := by
  rw [returnFromFrame, ends_bind, ends_get]
  simp only [current]
  cases locked : machine.frameLock? id with
  | none => exact free locked
  | some lock =>
      simp only [ends_bind, exitLock, ends_modifyGet]
      cases released : (machine.exitLock lock).1 with
      | false =>
          rw [Bool.not_false, if_pos rfl, ends_bind]
          exact (refused lock locked released).mono (fun _ _ never => never.elim)
            fun _ _ raised => raised
      | true =>
          rw [Bool.not_true, if_neg Bool.false_ne_true]
          exact held lock locked released

theorem ends_handOver (value : Value) {thrown : Throw → Machine → Prop} :
    Ends (handOver id value) machine
      (fun step after => after.exec = machine.exec.resume value ∧
        step = if (machine.exec.resume value).isIdle then .returned value else .next) thrown := by
  have dropped : ((machine.leaveInitializer id true).dropFrame (·.returnPc)).exec =
      machine.exec.leave (·.returnPc) := by
    rw [Machine.exec_dropFrame, Machine.exec_leaveInitializer]
  simp only [handOver, ends_bind, ends_modify, ends_get, dropped]
  cases caller : (machine.exec.leave (·.returnPc)).method with
  | none =>
      have idle := Execution.isIdle_of_host caller
      rw [if_pos idle, Execution.resume_of_idle caller]
      simp only [ends_bind, ends_modify, ends_pure, Machine.modifyExec, dropped]
      exact ⟨trivial, (if_pos idle).symm⟩
  | some resumed =>
      have busy := Bool.eq_false_iff.mp (Execution.isIdle_of_method caller)
      rw [if_neg busy, Execution.resume_of_busy caller]
      simp only [ends_bind, onStack, ends_modify, ends_pure, Machine.modifyStack,
        Machine.modifyExec, dropped]
      exact ⟨trivial, (if_neg busy).symm⟩

/-- A return makes the caller current. Only a frame whose method has a lock may fail to. -/
theorem ends_returnFromFrame (value : Value) (current : machine.exec.method = some id) :
    Ends (returnFromFrame value) machine
      (fun step after => after.exec = machine.exec.resume value ∧
        step = if (machine.exec.resume value).isIdle then .returned value else .next)
      fun _ _ => (machine.method id).isSynchronized = true := by
  have guarded : ∀ lock, machine.frameLock? id = some lock →
      (machine.method id).isSynchronized = true := by
    intro lock locked
    rw [Machine.frameLock?, Machine.lockOf?] at locked
    split at locked
    · cases locked
    · next unlocked => simpa using unlocked
  apply ends_returnFromFrame_of_handOver current
  · exact fun _ => ends_handOver value
  · intro lock _ _
    rw [← machine.exec_exitLock lock]
    exact ends_handOver value
  · intro lock locked _
    exact (ends_raise _ _ _).mono (fun _ _ never => never) fun _ _ _ => guarded lock locked

section

variable {value : Value} (current : machine.exec.method = some id)
  (unlocked : (machine.method id).isSynchronized = false)

include current unlocked

theorem returnFromFrame_of_unlocked :
    ∃ step after, returnFromFrame value machine = .ok step after ∧
      after.exec = machine.exec.resume value ∧
      step = if (machine.exec.resume value).isIdle then .returned value else .next := by
  apply (ends_returnFromFrame value current).exists_ok
  intro _ _ locked
  cases unlocked.symm.trans locked

theorem returnFromFrame_to_host (host : (machine.exec.resume value).method = none) :
    ∃ after, returnFromFrame value machine = .ok (.returned value) after ∧
      after.exec = machine.exec.resume value := by
  obtain ⟨step, after, returns, resumed, ended⟩ :=
    @returnFromFrame_of_unlocked machine id value current unlocked
  rw [if_pos (Execution.isIdle_of_host host)] at ended
  exact ⟨after, ended ▸ returns, resumed⟩

theorem returnFromFrame_to_method {caller : MethodId}
    (called : (machine.exec.resume value).method = some caller) :
    ∃ after, returnFromFrame value machine = .ok .next after ∧
      after.exec = machine.exec.resume value := by
  obtain ⟨step, after, returns, resumed, ended⟩ :=
    @returnFromFrame_of_unlocked machine id value current unlocked
  rw [Execution.isIdle_of_method called, if_neg Bool.false_ne_true] at ended
  exact ⟨after, ended ▸ returns, resumed⟩

end

end

end Guest

/-! ## What a frame does between its call and its return -/

namespace Machine

/-- What a frame does while it is current. Its own work leaves its registers and
what lies below its first local alone; the calls that it makes take their
arguments from above that, and return. -/
inductive Works : Machine → Machine → Prop
  | rest (machine : Machine) : Works machine machine
  | work {before middle after : Machine} (done : Works before middle)
      (same : middle.exec.SameFrame after.exec) : Works before after
  | call {before middle entered left after : Machine} {id caller : MethodId}
      {callerPc returnPc : UInt32} {value : Value} {step : Step} (done : Works before middle)
      (above : middle.exec.startSp + 1 + (middle.method id).frameArgSlots.toNat ≤
        middle.exec.stack.sp)
      (called : middle.exec.method = some caller) (encodable : caller.Encodable)
      (fits : middle.exec.startSp < FrameContext.encodablePositions)
      (enters : Guest.pushFrame id callerPc returnPc middle = .ok ⟨⟩ entered)
      (works : Works entered left)
      (returns : Guest.returnFromFrame value left = .ok step after) : Works before after

/-- Balanced work stays in its frame. -/
theorem Works.sameFrame {before after : Machine} (works : Works before after) :
    before.exec.SameFrame after.exec := by
  induction works with
  | rest machine => exact .refl machine.exec
  | work done same before => exact before.trans same
  | @call before middle entered left after id caller callerPc returnPc value step done above called
      encodable fits enters works returns before inner =>
      apply before.trans
      obtain ⟨claimed, -, rfl⟩ := ends_of_ok enters Guest.ends_pushFrame
      have current : left.exec.method = some id := inner.method
      obtain ⟨resumed, -⟩ := ends_of_ok returns (Guest.ends_returnFromFrame value current)
      obtain ⟨restored, -, startSp, list⟩ :=
        Execution.resume_of_caller claimed inner called encodable fits value
      rw [resumed]
      refine ⟨restored.trans called.symm, startSp, ?_⟩
      intro index below
      exact Stack.cell_eq_of_toList_eq (Nat.sub_le _ _) list (by omega)

/-- Calls are balanced. A call that fails leaves the registers and the stack of its
caller. One that succeeds makes the arguments the first locals of the frame, and
when the frame returns after any balanced work, the caller goes on with the value
in place of the arguments. -/
theorem call_balanced (machine : Machine) (id : MethodId) (callerPc returnPc : UInt32) :
    (∀ thrown after, Guest.pushFrame id callerPc returnPc machine = .error thrown after →
        after.exec = machine.exec) ∧
      ∀ entered, Guest.pushFrame id callerPc returnPc machine = .ok ⟨⟩ entered →
        ∃ base, base + (machine.method id).frameArgSlots.toNat = machine.exec.stack.sp ∧
          (∀ index < (machine.method id).frameLocals,
            entered.exec.stack.cell (entered.exec.localSlot index) =
              if index < (machine.method id).frameArgSlots.toNat then
                machine.exec.stack.cell (base + index)
              else (0, false)) ∧
          ∀ left, Works entered left → (left.method id).isSynchronized = false → ∀ value,
            (machine.exec.method = none →
              ∃ after, Guest.returnFromFrame value left = .ok (.returned value) after ∧
                after.exec.method = none ∧ after.exec.pc = 0 ∧ after.exec.startSp = 0 ∧
                after.exec.stack.toList = machine.exec.stack.toList.take base) ∧
            ∀ caller, machine.exec.method = some caller → caller.Encodable →
              machine.exec.startSp < FrameContext.encodablePositions →
              ∃ after, Guest.returnFromFrame value left = .ok .next after ∧
                after.exec.method = some caller ∧ after.exec.pc = returnPc ∧
                after.exec.startSp = machine.exec.startSp ∧
                after.exec.stack.toList =
                  machine.exec.stack.toList.take base ++ value.cells := by
  constructor
  · intro thrown after failed
    have spared := ends_of_error failed Guest.ends_pushFrame
    exact spared
  · intro entered enters
    obtain ⟨claimed, -, rfl⟩ := ends_of_ok enters Guest.ends_pushFrame
    refine ⟨machine.exec.stack.sp - (machine.method id).frameArgSlots.toNat,
      Nat.sub_add_cancel claimed, fun index inside => Execution.cell_localSlot_enter claimed inside,
      ?_⟩
    intro left works unlocked value
    have same := works.sameFrame
    have current : left.exec.method = some id := same.method
    constructor
    · intro host
      have restored := Execution.resume_of_host claimed same host value
      obtain ⟨after, returns, resumed⟩ :=
        Guest.returnFromFrame_to_host current unlocked restored.1
      rw [← resumed] at restored
      exact ⟨after, returns, restored⟩
    · intro caller called encodable fits
      have restored := Execution.resume_of_caller claimed same called encodable fits value
      obtain ⟨after, returns, resumed⟩ :=
        Guest.returnFromFrame_to_method current unlocked restored.1
      rw [← resumed] at restored
      exact ⟨after, returns, restored⟩

/-- A static method of two `int`s with three locals. -/
def recursive : Method where
  owner := ⟨0⟩
  name := "f"
  descriptor := "(II)I"
  flags := Access.isStatic
  params := [.int, .int]
  ret := some .int
  argSlots := 2
  code := some { maxStack := 2, maxLocals := 3 }
  native := none

theorem frameArgSlots_recursive : recursive.frameArgSlots.toNat = 2 := by decide

theorem frameLocals_recursive : recursive.frameLocals = 3 := by decide

/-- A machine whose current frame is about to call the method. -/
def recursion (caller : Option MethodId) (stack : Stack) (startSp : Nat) : Machine :=
  { (default : Machine) with
    registry := {
      classes := #[{
        id := ⟨0⟩, name := "F", flags := 0, superclass := none, interfaces := []
        methods := #[recursive] }] }
    exec := { id := 1, stack, method := caller, startSp } }

theorem pushFrame_recursion (caller : Option MethodId) (stack : Stack) (startSp : Nat)
    (claimed : 2 ≤ stack.sp) (roomy : stack.sp + 7 ≤ stack.limit) :
    Guest.pushFrame ⟨⟨0⟩, 0⟩ 5 8 (recursion caller stack startSp) =
      .ok ⟨⟩ ((recursion caller stack startSp).modifyExec fun exec =>
        exec.enter recursive ⟨⟨0⟩, 0⟩ 5 8) := by
  have pushed : recursive.frameArgSlots.toNat ≤ stack.sp := by
    rw [frameArgSlots_recursive]
    exact claimed
  have admits : (recursion caller stack startSp).exec.Admits recursive
      { maxStack := 2, maxLocals := 3 } := by
    rw [Execution.Admits, frameArgSlots_recursive, frameLocals_recursive]
    exact roomy
  exact Guest.pushFrame_of_admits rfl pushed admits

/-- A machine in the method, on a stack. -/
def recursing (stack : Stack) (startSp : Nat) : Machine := recursion (some ⟨⟨0⟩, 0⟩) stack startSp

theorem enter_recursion (caller : Option MethodId) (stack : Stack) (startSp : Nat)
    (callerPc returnPc : UInt32) :
    ((recursion caller stack startSp).modifyExec fun exec =>
      exec.enter recursive ⟨⟨0⟩, 0⟩ callerPc returnPc) =
        recursing (stack.enterFrame ⟨caller, callerPc, returnPc, startSp⟩ 2 3)
          (stack.sp - 2 + 3) := by
  have arguments := frameArgSlots_recursive
  have locals := frameLocals_recursive
  simp only [Machine.modifyExec, recursing, recursion, Execution.enter, arguments, locals]
  rfl

theorem call_balanced_recursion :
    let stack : Stack := { slots := #[0, 0, 0, 0, 9, 1, 2], sp := 7, limit := 64 }
    let called := recursing (stack.enterFrame ⟨some ⟨⟨0⟩, 0⟩, 5, 8, 3⟩ 2 3) 8
    (Guest.pushFrame ⟨⟨0⟩, 0⟩ 5 8 (recursing stack 3) = .ok ⟨⟩ called ∧
      called.exec.stack.cell (called.exec.localSlot 1) = (2, false) ∧
      ∃ left after, Works called left ∧ left.exec.stack.toList[12]? = some (7, false) ∧
        Guest.returnFromFrame (.int 3) left = .ok .next after ∧
        after.exec.pc = 8 ∧ after.exec.startSp = 3 ∧ after.exec.stack.toList =
          [(0, false), (0, false), (0, false), (0, false), (9, false), (3, false)]) ∧
      (∃ entered after, Guest.pushFrame ⟨⟨0⟩, 0⟩ 5 8 (recursion none stack 0) =
        .ok ⟨⟩ entered ∧ Guest.returnFromFrame (.int 3) entered = .ok (.returned (.int 3)) after ∧
        after.exec.method = none) ∧
      ∃ thrown after, Guest.pushFrame ⟨⟨0⟩, 0⟩ 5 8 (recursing { stack with sp := 1 } 0) =
        .error thrown after ∧ after.exec = (recursing { stack with sp := 1 } 0).exec := by
  intro stack called
  have unlocked : recursive.isSynchronized = false := by decide
  have encodable : MethodId.Encodable ⟨⟨0⟩, 0⟩ := MethodId.encodable_of_lt (by decide)
  have arguments := frameArgSlots_recursive
  refine ⟨?_, ?_, ?_⟩
  · have enters := pushFrame_recursion (some ⟨⟨0⟩, 0⟩) stack 3 (by decide) (by decide)
    rw [enter_recursion] at enters
    obtain ⟨base, claimed, locals, returns⟩ := (call_balanced _ _ 5 8).2 called enters
    -- The frame pushes two arguments and calls the method once more.
    let busy := recursing ((called.exec.stack.push 3).push 4) 8
    have pushes : called.exec.SameFrame busy.exec := ⟨rfl, rfl, by decide⟩
    have recalls := pushFrame_recursion (some ⟨⟨0⟩, 0⟩) busy.exec.stack 8 (by decide) (by decide)
    obtain ⟨above, reclaimed, -, nested⟩ := (call_balanced busy _ 5 8).2 _ recalls
    obtain ⟨ended, back, method, -, start, operands⟩ :=
      (nested _ (.rest _) unlocked (.int 7)).2 _ rfl encodable (by decide)
    have calls : Works called ended :=
      .call (.work (.rest called) pushes) (by decide) rfl encodable (by decide) recalls (.rest _)
        back
    have works : Works called (recursing ended.exec.stack 8) :=
      calls.work ⟨method.symm, start.symm, fun _ _ => rfl⟩
    obtain ⟨after, returned, -, pc, startSp, slots⟩ :=
      (returns _ works unlocked (.int 3)).2 _ rfl encodable (by decide)
    obtain rfl : base = 5 := by
      have taken : base + recursive.frameArgSlots.toNat = 7 := claimed
      omega
    obtain rfl : above = 12 := by
      have taken : above + recursive.frameArgSlots.toNat = busy.exec.stack.sp := reclaimed
      have top : busy.exec.stack.sp = 14 := by decide
      omega
    have inside : 1 < recursive.frameArgSlots.toNat := by decide
    have second : called.exec.stack.cell (called.exec.localSlot 1) = (2, false) :=
      (locals 1 (by decide : 1 < recursive.frameLocals)).trans ((if_pos inside).trans (by decide))
    have operand : ended.exec.stack.toList[12]? = some (7, false) := by
      rw [operands]
      decide
    exact ⟨enters, second, _, after, works, operand, returned, pc, startSp,
      slots.trans (by decide)⟩
  · have enters := pushFrame_recursion none stack 0 (by decide) (by decide)
    obtain ⟨base, -, -, returns⟩ := (call_balanced _ _ 5 8).2 _ enters
    obtain ⟨after, returned, idle, -⟩ := (returns _ (.rest _) unlocked (.int 3)).1 rfl
    exact ⟨_, after, enters, returned, idle⟩
  · cases called : Guest.pushFrame ⟨⟨0⟩, 0⟩ 5 8 (recursing { stack with sp := 1 } 0) with
    | ok _ entered =>
        obtain ⟨claimed, -⟩ := ends_of_ok called Guest.ends_pushFrame
        exact absurd (arguments ▸ claimed : 2 ≤ 1) (by decide)
    | error thrown after => exact ⟨thrown, after, rfl, (call_balanced _ _ 5 8).1 _ _ called⟩

theorem returnFromFrame_recursion (stack : Stack) (startSp : Nat) (claimed : 2 ≤ stack.sp) :
    ∃ after, Guest.returnFromFrame .void
        ((recursion (some ⟨⟨0⟩, 0⟩) stack startSp).modifyExec fun exec =>
          exec.enter recursive ⟨⟨0⟩, 0⟩ 5 8) = .ok .next after ∧
      after.exec.startSp = FrameContext.position (UInt32.ofNat startSp) := by
  let machine := recursion (some ⟨⟨0⟩, 0⟩) stack startSp
  have pushed : recursive.frameArgSlots.toNat ≤ machine.exec.stack.sp := by
    rw [frameArgSlots_recursive]
    exact claimed
  have encodable : MethodId.Encodable ⟨⟨0⟩, 0⟩ := MethodId.encodable_of_lt (by decide)
  obtain ⟨restored, -, start, -⟩ := Execution.resume_of_method pushed
    (.refl (machine.exec.enter recursive ⟨⟨0⟩, 0⟩ 5 8)) rfl encodable .void
  have unlocked : recursive.isSynchronized = false := by decide
  obtain ⟨after, returns, resumed⟩ := @Guest.returnFromFrame_to_method
    (machine.modifyExec fun exec => exec.enter recursive ⟨⟨0⟩, 0⟩ 5 8) ⟨⟨0⟩, 0⟩ .void rfl unlocked
    ⟨⟨0⟩, 0⟩ restored
  exact ⟨after, returns, resumed ▸ start⟩

/-- A saved position is a signed slot: a frame that starts at 2147483648 is not restored. -/
theorem start_beyond_slots :
    ∃ (machine entered after : Machine) (caller : MethodId), machine.exec.method = some caller ∧
      caller.Encodable ∧ (machine.method ⟨⟨0⟩, 0⟩).isSynchronized = false ∧
      Guest.pushFrame ⟨⟨0⟩, 0⟩ 5 8 machine = .ok ⟨⟩ entered ∧
      Guest.returnFromFrame .void entered = .ok .next after ∧
      after.exec.startSp ≠ machine.exec.startSp := by
  have enters := pushFrame_recursion (some ⟨⟨0⟩, 0⟩) { sp := 2147483651, limit := 4294967296 }
    2147483648 (Nat.le_of_ble_eq_true rfl) (Nat.le_of_ble_eq_true rfl)
  obtain ⟨after, returns, startSp⟩ := returnFromFrame_recursion
    { sp := 2147483651, limit := 4294967296 } 2147483648 (Nat.le_of_ble_eq_true rfl)
  have unlocked : recursive.isSynchronized = false := by decide
  have encodable : MethodId.Encodable ⟨⟨0⟩, 0⟩ := MethodId.encodable_of_lt (by decide)
  have moved : after.exec.startSp ≠ 2147483648 := by
    rw [startSp]
    decide
  exact ⟨recursion (some ⟨⟨0⟩, 0⟩) { sp := 2147483651, limit := 4294967296 } 2147483648, _, after,
    ⟨⟨0⟩, 0⟩, rfl, encodable, unlocked, enters, returns, moved⟩

end Machine

end Jvm
