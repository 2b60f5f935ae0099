import Jvm.Machine.Unwind
import Jvm.Proofs.Veiling.Constants

/-!
# Locks, returns and unwinding behind a veil

Locks are held by executions, frames are left to their callers, and handlers are found in
tables beside the code. Whoever leaves a frame may leave the last one, so nothing of this
goes with a veil that takes a frame for granted.
-/

namespace Jvm

open Machine

namespace ClassTable

variable (recoding : Recoding) (table : ClassTable)

theorem waiting_recode (id : ClassId) :
    (table.recode recoding).waiting id = table.waiting id := by
  have waits : (table.recode recoding).waitsFor = table.waitsFor := by
    funext id above
    simp only [waitsFor, get_recode, Class.initializer?, Class.declaredMethod?_recode]
    rfl
  simp only [waiting, size_recode, waits]

theorem finishInitialization_recode (id : ClassId) (succeeded : Bool) :
    (table.recode recoding).finishInitialization id succeeded =
      (table.finishInitialization id succeeded).recode recoding := by
  rw [finishInitialization, finishInitialization, waiting_recode]
  generalize table.waiting id = ids
  induction ids generalizing table with
  | nil => rfl
  | cons id rest ih =>
      rw [List.foldl_cons, List.foldl_cons]
      refine Eq.trans (congrArg (rest.foldl _) (modify_recode recoding table id ?_)) (ih _)
      exact fun _ _ => rfl

theorem size_finishInitialization (id : ClassId) (succeeded : Bool) :
    (table.finishInitialization id succeeded).size = table.size := by
  rw [finishInitialization]
  generalize table.waiting id = ids
  induction ids generalizing table with
  | nil => rfl
  | cons id rest ih =>
      rw [List.foldl_cons]
      exact (ih _).trans (size_modify ..)

end ClassTable

namespace Machine

variable {veil : Veil} (machine : Machine)

/-! ## Locks -/

theorem monitor?_veil (lock : Lock) : (machine.veil veil).monitor? lock = machine.monitor? lock := by
  cases lock with
  | object ref => rfl
  | cls id => exact congrArg some (machine.view_veil Class.monitor (fun _ _ => rfl) id)

theorem setMonitor_veil (monitor : Monitor) (lock : Lock) :
    (machine.veil veil).setMonitor monitor lock = (machine.setMonitor monitor lock).veil veil := by
  cases lock with
  | object ref => rfl
  | cls id => exact machine.modifyClass_veil id fun _ _ => rfl

theorem covers_setMonitor {machine : Machine} (covers : veil.Covers machine) (monitor : Monitor)
    (lock : Lock) : veil.Covers (machine.setMonitor monitor lock) := by
  cases lock with
  | object ref => exact covers
  | cls id => exact covers_modifyClass covers id _

theorem enterLock_veil (lock : Lock) : (machine.veil veil).enterLock lock =
    ((machine.enterLock lock).1, (machine.enterLock lock).2.veil veil) := by
  rw [enterLock, enterLock, monitor?_veil, exec_veil,
    show (machine.exec.veil veil).id = machine.exec.id from rfl]
  cases machine.monitor? lock with
  | none => rfl
  | some monitor =>
      cases taken : monitor.enter machine.exec.id with
      | none => simp only [taken]
      | some monitor => simp only [taken, setMonitor_veil]

theorem covers_enterLock {machine : Machine} (covers : veil.Covers machine) (lock : Lock) :
    veil.Covers (machine.enterLock lock).2 := by
  rw [enterLock]
  split
  · exact covers
  · split
    · exact covers_setMonitor covers _ lock
    · exact covers

theorem exitLock_veil (lock : Lock) : (machine.veil veil).exitLock lock =
    ((machine.exitLock lock).1, (machine.exitLock lock).2.veil veil) := by
  rw [exitLock, exitLock, monitor?_veil, exec_veil,
    show (machine.exec.veil veil).id = machine.exec.id from rfl]
  cases (machine.monitor? lock).bind fun monitor => monitor.exit machine.exec.id with
  | none => rfl
  | some monitor => simp only [setMonitor_veil]

theorem covers_exitLock {machine : Machine} (covers : veil.Covers machine) (lock : Lock) :
    veil.Covers (machine.exitLock lock).2 := by
  rw [exitLock]
  split
  · exact covers_setMonitor covers _ lock
  · exact covers

theorem lockOf?_veil (id : MethodId) (receiver : Option Ref) :
    (machine.veil veil).lockOf? id receiver = machine.lockOf? id receiver := by
  simp only [lockOf?, method_veil]
  rfl

theorem frameLock?_veil (id : MethodId) :
    (machine.veil veil).frameLock? id = machine.frameLock? id :=
  machine.lockOf?_veil id _

theorem releaseLocks_veil (exec : ExecId) :
    (machine.veil veil).releaseLocks exec = (machine.releaseLocks exec).veil veil := by
  let free (cls : Class) : Class :=
    if cls.monitor.heldBy exec then { cls with monitor := Monitor.free } else cls
  have blind : ∀ (cls : Class) codes, free (cls.recode codes) = (free cls).recode codes := by
    intro cls codes
    simp only [free, show (cls.recode codes).monitor = cls.monitor from rfl]
    split <;> rfl
  have tables := ClassTable.map_recode veil.recoding machine.registry.toClassTable blind
  simp only [releaseLocks, modifyTable, modifyHeap, Machine.veil, Registry.recode,
    Registry.withTable]
  rw [← tables]

theorem covers_releaseLocks {machine : Machine} (covers : veil.Covers machine) (exec : ExecId) :
    veil.Covers (machine.releaseLocks exec) := by
  obtain ⟨ends, rest⟩ := covers
  refine ⟨?_, rest⟩
  rw [show (machine.releaseLocks exec).registry.size = machine.registry.size from Array.size_map]
  exact ends

/-! ## Frames -/

theorem leaveInitializer_veil (id : MethodId) (succeeded : Bool) :
    (machine.veil veil).leaveInitializer id succeeded =
      (machine.leaveInitializer id succeeded).veil veil := by
  have tables := machine.registry.toClassTable.finishInitialization_recode veil.recoding id.owner
    succeeded
  rw [leaveInitializer, leaveInitializer, method_veil]
  change (if (machine.method id).isInitializer then _ else _) = _
  split
  · simp only [modifyTable, Machine.veil, Registry.recode, Registry.withTable, tables]
  · rfl

theorem covers_leaveInitializer {machine : Machine} (covers : veil.Covers machine) (id : MethodId)
    (succeeded : Bool) : veil.Covers (machine.leaveInitializer id succeeded) := by
  rw [leaveInitializer]
  split
  · obtain ⟨ends, rest⟩ := covers
    refine ⟨?_, rest⟩
    change veil.recoding.EndsAt (machine.registry.finishInitialization id.owner succeeded).size
    rw [ClassTable.size_finishInitialization]
    exact ends
  · exact covers

theorem dropFrame_veil (resume : FrameContext → UInt32) :
    (machine.veil veil).dropFrame resume = (machine.dropFrame resume).veil veil := rfl

section

variable (free : ¬veil.busy)

include free

/-- Whatever happens to its frames, the running execution keeps its id, keeps no exception
back and does not sleep. -/
theorem covers_modifyExec {machine : Machine} (covers : veil.Covers machine)
    {change : Execution → Execution} (id : (change machine.exec).id = machine.exec.id)
    (wakeAt : machine.exec.wakeAt = none → (change machine.exec).wakeAt = none)
    (kept : machine.exec.pendingException = none →
      (change machine.exec).pendingException = none) :
    veil.Covers (machine.modifyExec change) := by
  obtain ⟨ends, sameId, parked, completed, clock, steady, clear, busy⟩ := covers
  refine ⟨ends, id.trans sameId, parked, completed, clock, fun holds => ?_,
    fun holds => kept (clear holds), fun holds => (free holds).elim⟩
  exact ⟨(steady holds).1, wakeAt (steady holds).2⟩

theorem covers_dropFrame {machine : Machine} (covers : veil.Covers machine)
    (resume : FrameContext → UInt32) : veil.Covers (machine.dropFrame resume) :=
  covers_modifyExec free covers rfl (fun none => none) fun none => none

theorem covers_reset {machine : Machine} (covers : veil.Covers machine) :
    veil.Covers (machine.modifyExec Execution.reset) :=
  covers_modifyExec free covers rfl (fun _ => rfl) fun _ => rfl

theorem covers_abandonFrame {machine : Machine} (covers : veil.Covers machine) (id : MethodId) :
    veil.Covers (machine.abandonFrame id) := by
  rw [abandonFrame]
  split
  next lock _ =>
      exact covers_dropFrame free (covers_leaveInitializer (covers_exitLock covers lock) id false) _
  next => exact covers_dropFrame free (covers_leaveInitializer covers id false) _

theorem covers_abandonExecution {machine : Machine} (covers : veil.Covers machine) :
    veil.Covers machine.abandonExecution := by
  have leaves : ∀ (methods : List MethodId) (machine : Machine), veil.Covers machine →
      veil.Covers (methods.foldl (fun machine id => machine.leaveInitializer id false) machine) := by
    intro methods
    induction methods with
    | nil => exact fun _ covers => covers
    | cons id rest ih => exact fun machine covers => ih _ (covers_leaveInitializer covers id false)
  exact covers_reset free (leaves _ _ (covers_releaseLocks covers _))

end

theorem abandonFrame_veil (id : MethodId) :
    (machine.veil veil).abandonFrame id = (machine.abandonFrame id).veil veil := by
  rw [abandonFrame, abandonFrame, frameLock?_veil]
  split <;> simp only [exitLock_veil, leaveInitializer_veil, dropFrame_veil]

theorem abandonExecution_veil :
    (machine.veil veil).abandonExecution = machine.abandonExecution.veil veil := by
  have leaves : ∀ (methods : List MethodId) (machine : Machine),
      methods.foldl (fun machine id => machine.leaveInitializer id false) (machine.veil veil) =
        (methods.foldl (fun machine id => machine.leaveInitializer id false) machine).veil veil := by
    intro methods
    induction methods with
    | nil => exact fun _ => rfl
    | cons id rest ih =>
        intro machine
        rw [List.foldl_cons, List.foldl_cons, leaveInitializer_veil]
        exact ih _
  have locks : (machine.veil veil).releaseLocks (machine.exec.veil veil).id = _ :=
    machine.releaseLocks_veil machine.exec.id
  simp only [abandonExecution]
  rw [exec_veil, locks]
  exact congrArg (fun machine : Machine => machine.modifyExec Execution.reset) (leaves _ _)

/-- The report of an exception shows no code. -/
theorem uncaught_veil (ref : Ref) (id : ClassId) (trace : List (MethodId × UInt32)) :
    (machine.veil veil).uncaught ref id trace = machine.uncaught ref id trace := by
  simp only [uncaught, displayName_veil, toClassTable_veil, ClassTable.describeFrame_recode]
  rfl

end Machine

namespace Guest

variable {veil : Veil}

theorem blind_enterLock (lock : Lock) : Blind veil (enterLock lock) :=
  .modifyGet (fun _ covers => covers_enterLock covers lock) fun machine _ =>
    machine.enterLock_veil lock

theorem blind_exitLock (lock : Lock) : Blind veil (exitLock lock) :=
  .modifyGet (fun _ covers => covers_exitLock covers lock) fun machine _ =>
    machine.exitLock_veil lock

theorem blind_findHandlerIn (owner : ClassId) (pc : UInt32) (thrown : ClassId)
    (handlers : List Handler) : Blind veil (findHandlerIn owner pc thrown handlers) := by
  induction handlers with
  | nil => exact .pure _
  | cons handler rest ih =>
      rw [findHandlerIn]
      split
      · exact ih
      · split
        · exact .pure _
        · refine (blind_linkClass owner _).bind fun loaded => ?_
          split
          · refine .get_bind (fun machine _ => ?_) fun machine _ => ?_
            · rw [isAssignable_veil]
            · split
              · exact .pure _
              · exact ih
          · exact ih

theorem blind_findHandler (id : MethodId) (pc : UInt32) (thrown : ClassId) :
    Blind veil (findHandler id pc thrown) := by
  refine .get_bind (fun machine _ => ?_) fun machine _ => ?_
  · simp only [method_veil]
    cases code : (machine.method id).code <;> simp only [Method.recode, code] <;> rfl
  · split
    · exact blind_findHandlerIn _ _ _ _
    · exact .pure _

theorem blind_enterHandler (id : MethodId) (handlerPc : UInt32) (ref : Ref) :
    Blind veil (enterHandler id handlerPc ref) := by
  refine .modify (fun machine covers => ?_) fun machine _ => ?_
  · exact covers
  · simp only [method_veil, Method.frameLocals_recode]
    rfl

section

variable (free : ¬veil.busy)

include free

theorem blind_returnFromFrame (value : Value) : Blind veil (returnFromFrame value) := by
  have leaves : ∀ id : MethodId, Blind veil (handOver id value) := by
    intro id
    refine Overlooks.bind (.modify (fun _ covers => covers_leaveInitializer covers id true)
      fun machine _ => machine.leaveInitializer_veil id true) fun _ =>
      Overlooks.bind (.modify (fun _ covers => covers_dropFrame free covers _)
        fun machine _ => machine.dropFrame_veil _) fun _ =>
      .get_bind (fun _ _ => rfl) fun after _ => ?_
    split
    · exact Overlooks.bind (.modify (fun _ covers => covers_modifyExec free covers rfl
        (fun none => none) fun none => none) fun _ _ => rfl) fun _ => .pure _
    · exact (blind_onStack _).bind fun _ => .pure _
  refine .get_bind (fun machine _ => ?_) fun machine _ => ?_
  · simp only [frameLock?_veil]
    rfl
  · split
    · exact blind_fault _
    · split
      · exact leaves _
      · refine (blind_exitLock _).bind fun released => ?_
        split
        · exact (blind_raise _ _).bind fun _ => leaves _
        · exact leaves _

theorem blind_unwindFrames (ref : Ref) (thrown : ClassId) (fuel : Nat)
    (trace : List (MethodId × UInt32)) : Blind veil (unwindFrames ref thrown fuel trace) := by
  induction fuel generalizing trace with
  | zero => exact blind_fatal _
  | succ fuel ih =>
      refine .get_bind (fun machine _ => ?_) fun machine _ => ?_
      · simp only [uncaught_veil]
        rfl
      · split
        · exact Overlooks.bind (.modify (fun _ covers => covers_reset free covers)
            fun _ _ => rfl) fun _ => blind_fatal _
        · refine (blind_findHandler _ _ _).bind fun found => ?_
          split
          · exact blind_enterHandler _ _ _
          · exact Overlooks.bind (.modify (fun _ covers => covers_abandonFrame free covers _)
              fun machine _ => machine.abandonFrame_veil _) fun _ => ih _

theorem blind_unwind (ref : Ref) : Blind veil (unwind ref) := by
  refine .get_bind (fun _ _ => rfl) fun machine _ => ?_
  split
  · exact blind_fault _
  · exact blind_unwindFrames free _ _ _ _

end

end Guest

end Jvm
