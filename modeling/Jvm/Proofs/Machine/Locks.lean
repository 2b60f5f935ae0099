import Jvm.Proofs.Machine.Handlers
import Jvm.Proofs.Machine.Staging

/-!
# Locks of frames

A synchronized method acquires a lock when it is called and releases one when its frame is
left, by a return or by an exception. It is the same lock, and no other monitor changes:
for a static method always, and for an instance method as long as its first local holds
the receiver. Releasing undoes taking, so that a call leaves the monitors that it found.
-/

namespace Jvm

namespace Monitor

/-- A monitor without the owner of a free one. -/
def settled (monitor : Monitor) : Monitor := if monitor.count = 0 then free else monitor

/-- A monitor after an execution took it once more, if it may. -/
def taken (monitor : Monitor) (exec : ExecId) : Monitor := (monitor.enter exec).getD monitor

/-- A monitor after an execution released it once, if it holds it. -/
def released (monitor : Monitor) (exec : ExecId) : Monitor := (monitor.exit exec).getD monitor

variable {monitor : Monitor} {exec : ExecId}

/-- Releasing undoes taking, unless the count is full. -/
theorem released_taken (admits : (monitor.enter exec).isSome) (room : monitor.count + 1 ≠ 0) :
    (monitor.taken exec).released exec = monitor.settled := by
  have admitted : monitor.count = 0 ∨ monitor.owner = exec := by
    by_contra refused
    rw [enter, if_neg refused] at admits
    cases admits
  have held : ¬(monitor.count + 1 = 0 ∨ exec ≠ exec) :=
    not_or.mpr ⟨room, not_not_intro rfl⟩
  rw [taken, enter, if_pos admitted, Option.getD_some, released, exit, if_neg held, settled]
  by_cases fresh : monitor.count = 0
  · rw [if_pos fresh, if_pos (by rw [fresh]; rfl), Option.getD_some]
  · have nested : monitor.count + 1 ≠ 1 := by
      intro one
      apply fresh
      rw [← UInt32.add_sub_cancel monitor.count 1, one]
      rfl
    rw [if_neg fresh, if_neg nested, Option.getD_some, ← admitted.resolve_left fresh,
      UInt32.add_sub_cancel]

end Monitor

/-- Whether the class of a lock is linked; an object has a monitor while it is live. -/
def Lock.Linked (table : ClassTable) : Lock → Prop
  | .object _ => True
  | .cls id => table.Has id

namespace Machine

/-! ## Single locks -/

section

variable (machine : Machine)

theorem monitor?_setMonitor_self {lock : Lock}
    (linked : lock.Linked machine.registry.toClassTable) (monitor : Monitor) :
    (machine.setMonitor monitor lock).monitor? lock =
      (machine.monitor? lock).map fun _ => monitor := by
  cases lock with
  | object ref =>
      have changed := machine.heap.get?_modify ref ref fun object => { object with monitor }
      rw [if_pos rfl] at changed
      have observed := congrArg (Option.map Object.monitor) changed
      rw [Option.map_map] at observed
      refine observed.trans ?_
      rw [monitor?, Option.map_map]
      rfl
  | cls id =>
      have changed := @ClassTable.get_modify machine.registry.toClassTable id id
        (fun cls => { cls with monitor }) linked
      rw [if_pos rfl] at changed
      exact congrArg (fun cls : Class => some cls.monitor) changed

theorem monitor?_setMonitor_of_ne {lock other : Lock} (differs : lock ≠ other)
    (monitor : Monitor) :
    (machine.setMonitor monitor lock).monitor? other = machine.monitor? other := by
  cases lock with
  | object ref =>
      cases other with
      | object ref' =>
          have kept := machine.heap.get?_modify ref ref' fun object => { object with monitor }
          rw [if_neg fun same => differs (congrArg Lock.object same)] at kept
          exact congrArg (Option.map Object.monitor) kept
      | cls id => rfl
  | cls id =>
      cases other with
      | object ref => rfl
      | cls id' =>
          have kept := machine.registry.get_modify_of_ne id id'
            (fun cls => { cls with monitor }) fun same => differs (congrArg Lock.cls same)
          exact congrArg (fun cls : Class => some cls.monitor) kept

theorem monitor?_modifyExec (change : Execution → Execution) (lock : Lock) :
    (machine.modifyExec change).monitor? lock = machine.monitor? lock := by
  cases lock <;> rfl

theorem monitor?_dropFrame (resume : FrameContext → UInt32) (lock : Lock) :
    (machine.dropFrame resume).monitor? lock = machine.monitor? lock :=
  machine.monitor?_modifyExec _ lock

theorem monitor?_leaveInitializer (id : MethodId) (succeeded : Bool) (lock : Lock) :
    (machine.leaveInitializer id succeeded).monitor? lock = machine.monitor? lock := by
  rw [leaveInitializer]
  split
  · cases lock with
    | object ref => rfl
    | cls other =>
        exact congrArg some
          (ClassTable.view_finishInitialization Class.monitor (fun _ _ => rfl) other)
  · rfl

theorem exec_enterLock (lock : Lock) : (machine.enterLock lock).2.exec = machine.exec := by
  rw [enterLock]
  split
  · rfl
  · split
    · exact machine.exec_setMonitor _ _
    · rfl

theorem method_enterLock (lock : Lock) (method : MethodId) :
    (machine.enterLock lock).2.method method = machine.method method := by
  rw [enterLock]
  split
  · rfl
  · split
    · exact machine.method_setMonitor method _ lock
    · rfl

end

/-! ## Taking and releasing -/

/-- How the monitors change when the running execution acquires a lock, if it is to. -/
def Acquires (before : Machine) (lock : Option Lock) (after : Machine) : Prop :=
  ∀ other, after.monitor? other =
    if lock = some other then (before.monitor? other).map (·.taken before.exec.id)
    else before.monitor? other

/-- How the monitors change when the running execution releases a lock, if it is to. -/
def Releases (before : Machine) (lock : Option Lock) (after : Machine) : Prop :=
  ∀ other, after.monitor? other =
    if lock = some other then (before.monitor? other).map (·.released before.exec.id)
    else before.monitor? other

section

variable {machine before middle after : Machine} {lock : Option Lock}

theorem Acquires.trans_spared (acquires : before.Acquires lock middle)
    (spared : ∀ other, after.monitor? other = middle.monitor? other) : before.Acquires lock after :=
  fun other => (spared other).trans (acquires other)

theorem Releases.trans_spared (releases : before.Releases lock middle)
    (spared : ∀ other, after.monitor? other = middle.monitor? other) :
    before.Releases lock after :=
  fun other => (spared other).trans (releases other)

theorem acquires_none : machine.Acquires none machine := fun _ => (if_neg nofun).symm

theorem releases_none : machine.Releases none machine := fun _ => (if_neg nofun).symm

theorem acquires_enterLock {lock : Lock} (linked : lock.Linked machine.registry.toClassTable) :
    machine.Acquires (some lock) (machine.enterLock lock).2 := by
  intro other
  by_cases same : lock = other
  · subst same
    rw [if_pos rfl, enterLock]
    cases found : machine.monitor? lock with
    | none => exact found
    | some monitor =>
        rw [Option.map_some, Monitor.taken]
        dsimp only
        cases monitor.enter machine.exec.id with
        | none => exact found
        | some held =>
            rw [machine.monitor?_setMonitor_self linked, found]
            rfl
  · rw [if_neg fun equal => same (Option.some.inj equal), enterLock]
    split
    · rfl
    · split
      · exact machine.monitor?_setMonitor_of_ne same _
      · rfl

theorem releases_exitLock {lock : Lock} (linked : lock.Linked machine.registry.toClassTable) :
    machine.Releases (some lock) (machine.exitLock lock).2 := by
  intro other
  by_cases same : lock = other
  · subst same
    rw [if_pos rfl, exitLock]
    cases found : machine.monitor? lock with
    | none => exact found
    | some monitor =>
        rw [Option.map_some, Option.bind_some, Monitor.released]
        cases monitor.exit machine.exec.id with
        | none => exact found
        | some left =>
            dsimp only
            rw [machine.monitor?_setMonitor_self linked, found]
            rfl
  · rw [if_neg fun equal => same (Option.some.inj equal), exitLock]
    split
    · exact machine.monitor?_setMonitor_of_ne same _
    · rfl

/-- A lock is not released if the running execution does not hold it. -/
theorem not_heldBy_of_exitLock {lock : Lock} (refused : (machine.exitLock lock).1 = false)
    {monitor : Monitor} (found : machine.monitor? lock = some monitor) :
    monitor.heldBy machine.exec.id = false := by
  by_contra held
  rw [Bool.not_eq_false, ← Monitor.exit_isSome_iff, Option.isSome_iff_exists] at held
  obtain ⟨left, exits⟩ := held
  rw [exitLock, found, Option.bind_some, exits] at refused
  cases refused

end

/-! ## Leaving a frame -/

section

variable {machine : Machine} {id : MethodId}
  (linked : ∀ lock, machine.frameLock? id = some lock →
    lock.Linked machine.registry.toClassTable)

include linked

/-- A frame that is left without a value gives up its lock and no other. -/
theorem releases_abandonFrame :
    machine.Releases (machine.frameLock? id) (machine.abandonFrame id) := by
  rw [abandonFrame]
  cases locked : machine.frameLock? id with
  | none =>
      refine releases_none.trans_spared fun other => ?_
      rw [monitor?_dropFrame, monitor?_leaveInitializer]
  | some lock =>
      refine (releases_exitLock (linked lock locked)).trans_spared fun other => ?_
      rw [monitor?_dropFrame, monitor?_leaveInitializer]

omit linked in
theorem ends_handOver_monitor (value : Value) {thrown : Throw → Machine → Prop} :
    Ends (Guest.handOver id value) machine
      (fun _ after => ∀ lock, after.monitor? lock = machine.monitor? lock) thrown := by
  simp only [Guest.handOver, ends_bind, ends_modify, ends_get]
  split
  · simp only [ends_bind, ends_modify, ends_pure, monitor?_modifyExec, monitor?_dropFrame,
      monitor?_leaveInitializer, implies_true]
  · simp only [ends_bind, Guest.onStack, ends_modify, ends_pure, modifyStack,
      monitor?_modifyExec, monitor?_dropFrame, monitor?_leaveInitializer, implies_true]

/-- A frame that returns gives up its lock and no other. It fails to return only if the
execution does not hold the lock. -/
theorem ends_returnFromFrame_releases (current : machine.exec.method = some id) (value : Value) :
    Ends (Guest.returnFromFrame value) machine
      (fun _ after => machine.Releases (machine.frameLock? id) after)
      fun _ _ => ∃ lock, machine.frameLock? id = some lock ∧ ∀ monitor,
        machine.monitor? lock = some monitor → monitor.heldBy machine.exec.id = false := by
  apply Guest.ends_returnFromFrame_of_handOver current
  · intro free
    rw [free]
    exact (ends_handOver_monitor value).mono
      (fun _ _ spared => releases_none.trans_spared spared) fun _ _ thrown => thrown
  · intro lock locked _
    rw [locked]
    exact (ends_handOver_monitor value).mono
      (fun _ _ spared => (releases_exitLock (linked lock locked)).trans_spared spared)
      fun _ _ thrown => thrown
  · intro lock locked refused
    exact (Guest.ends_raise _ _ _).mono (fun _ _ never => never) fun _ _ _ =>
      ⟨lock, locked, fun _ found => not_heldBy_of_exitLock refused found⟩

end

/-! ## From the call to the end of its frame -/

/-- Whether a frame of a method is current that was called with the arguments on top of the
stack of an earlier state: the method is what it was, and unless it is static, its first
local is the receiver still. -/
structure InCall (called : Machine) (id : MethodId) (left : Machine) : Prop where
  current : left.exec.method = some id
  flags : (left.method id).flags = (called.method id).flags
  receiver : (called.method id).isStatic = false →
    left.exec.stack.loadRef (left.exec.localSlot 0) =
      called.exec.stack.peekRef ((called.method id).frameArgSlots.toNat - 1)

/-- The lock of the frame is the one that its call took. -/
theorem InCall.frameLock?_eq {called left : Machine} {id : MethodId}
    (inCall : called.InCall id left) : left.frameLock? id = Guest.callLock? called id := by
  have locks : (left.method id).isSynchronized = (called.method id).isSynchronized :=
    congrArg (Access.has · Access.isSynchronized) inCall.flags
  have static : (left.method id).isStatic = (called.method id).isStatic :=
    congrArg (Access.has · Access.isStatic) inCall.flags
  simp only [frameLock?, Guest.callLock?, lockOf?, locks, static]
  cases ordinary : (called.method id).isStatic with
  | true => rfl
  | false => rw [inCall.receiver ordinary]

section

variable {machine : Machine} {id : MethodId}

theorem linked_of_lockOf? {receiver : Option Ref} {lock : Lock}
    (known : machine.registry.Has id.owner) (locked : machine.lockOf? id receiver = some lock) :
    lock.Linked machine.registry.toClassTable := by
  simp only [lockOf?] at locked
  split at locked
  · cases locked
  · split at locked
    · cases locked
      exact known
    · obtain ⟨ref, -, rfl⟩ := Option.map_eq_some_iff.mp locked
      trivial

/-- The receiver of a call is the first local of its frame. -/
theorem loadRef_enter (claimed : (machine.method id).frameArgSlots.toNat ≤ machine.exec.stack.sp)
    (receiver : 0 < (machine.method id).frameArgSlots.toNat) (callerPc returnPc : UInt32) :
    let entered := machine.exec.enter (machine.method id) id callerPc returnPc
    entered.stack.loadRef (entered.localSlot 0) =
      machine.exec.stack.peekRef ((machine.method id).frameArgSlots.toNat - 1) := by
  intro entered
  have inside : 0 < (machine.method id).frameLocals :=
    Nat.lt_of_lt_of_le receiver (machine.method id).frameArgSlots_le_frameLocals
  have cell := @Execution.cell_localSlot_enter machine.exec (machine.method id) id callerPc
    returnPc claimed 0 inside
  rw [if_pos receiver, Nat.add_zero] at cell
  have raw := congrArg Prod.fst cell
  rw [Stack.fst_cell, Stack.fst_cell] at raw
  have below : (machine.method id).frameArgSlots.toNat - 1 < machine.exec.stack.sp := by omega
  have depth : machine.exec.stack.sp - ((machine.method id).frameArgSlots.toNat - 1 + 1) =
      machine.exec.stack.sp - (machine.method id).frameArgSlots.toNat := by omega
  rw [Stack.loadRef, Stack.peekRef, Stack.peek, if_pos below, depth]
  exact congrArg Ref.ofSlot raw

theorem acquires_takeLock {lock : Option Lock}
    (linked : ∀ held, lock = some held → held.Linked machine.registry.toClassTable) :
    Ends (Guest.takeLock lock) machine
      (fun _ after => machine.Acquires lock after ∧ after.exec = machine.exec ∧
        ∀ method, after.method method = machine.method method) fun _ _ => False := by
  cases lock with
  | none => exact ends_pure.mpr ⟨acquires_none, rfl, fun _ => rfl⟩
  | some held =>
      exact ends_modifyGet.mpr ⟨acquires_enterLock (linked held rfl), machine.exec_enterLock held,
        machine.method_enterLock held⟩

/-- A call of a method with code that goes on acquires the lock of the method and no other,
and makes a frame of it current. -/
theorem inCall_invoke (interpreted : (machine.method id).isNative = false)
    (known : machine.registry.Has id.owner)
    (receiver : (machine.method id).isStatic = false →
      0 < (machine.method id).frameArgSlots.toNat)
    (reentry : Reentry) (callerPc returnPc : UInt32) :
    Ends (Guest.invoke reentry id callerPc returnPc) machine
      (fun step entered => step = .blocked ∨
        machine.Acquires (Guest.callLock? machine id) entered ∧ machine.InCall id entered)
      fun _ _ => True := by
  rw [Guest.invoke, ends_bind, ends_get]
  dsimp only
  split
  · exact (Guest.ends_raise _ _ _).mono (fun _ _ never => never.elim) fun _ _ _ => trivial
  · rw [ends_bind]
    refine (acquires_takeLock fun _ => linked_of_lockOf? known).mono ?_ fun _ _ never => never.elim
    rintro taken after ⟨acquires, exec, methods⟩
    split
    · exact ends_pure.mpr (.inl rfl)
    · rw [interpreted, if_neg Bool.false_ne_true, ends_bind, Guest.ends_onThrow]
      refine Guest.ends_pushFrame.mono ?_ fun _ _ _ => trivial
      rintro - entered ⟨claimed, -, rfl⟩
      rw [ends_pure]
      refine .inr ⟨acquires.trans_spared fun other => after.monitor?_modifyExec _ other, rfl, ?_, ?_⟩
      · exact congrArg Method.flags (methods id)
      · intro ordinary
        have loaded := @loadRef_enter after id claimed
          (by rw [methods]; exact receiver ordinary) callerPc returnPc
        exact loaded.trans (by rw [methods, exec])

end

/-- A synchronized method releases the lock that it took, and no other monitor changes. If a
frame of the method is current that was called in an earlier state, then whatever has
happened in between, an exception that leaves the frame releases the lock of the call once,
and so does a return, unless the execution does not hold the lock any more. -/
theorem frame_releases_call {called left : Machine} {id : MethodId}
    (inCall : called.InCall id left) (known : left.registry.Has id.owner) :
    left.Releases (Guest.callLock? called id) (left.abandonFrame id) ∧
      ∀ value, Ends (Guest.returnFromFrame value) left
        (fun _ after => left.Releases (Guest.callLock? called id) after)
        fun _ _ => ∃ lock, Guest.callLock? called id = some lock ∧ ∀ monitor,
          left.monitor? lock = some monitor → monitor.heldBy left.exec.id = false := by
  rw [← inCall.frameLock?_eq]
  exact ⟨releases_abandonFrame fun _ => linked_of_lockOf? known,
    ends_returnFromFrame_releases (fun _ => linked_of_lockOf? known) inCall.current⟩

/-- A call that is left in the monitors that it entered restores those that it found. -/
theorem Acquires.restores {called entered left after : Machine} {lock : Option Lock}
    (acquires : called.Acquires lock entered)
    (balanced : ∀ other, left.monitor? other = entered.monitor? other)
    (same : left.exec.id = called.exec.id) (releases : left.Releases lock after)
    (admits : ∀ held monitor, lock = some held → called.monitor? held = some monitor →
      (monitor.enter called.exec.id).isSome ∧ monitor.count + 1 ≠ 0) (other : Lock) :
    after.monitor? other =
      if lock = some other then (called.monitor? other).map (·.settled)
      else called.monitor? other := by
  rw [releases other, balanced other, acquires other]
  split
  · next locked =>
      rw [Option.map_map]
      apply Option.map_congr
      intro monitor found
      obtain ⟨admitted, room⟩ := admits other monitor locked found
      rw [same]
      exact Monitor.released_taken admitted room
  · rfl

end Machine

end Jvm
