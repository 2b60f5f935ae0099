import Jvm.Proofs.Heap.Collection
import Jvm.Proofs.Machine.Locks
import Jvm.Proofs.Machine.Returns
import Jvm.Proofs.Machine.Unwinding

/-!
# How executions end

An execution that fails is given up: it has no frames and no operands left, nothing is
kept back for it, it holds no lock, and the initializers that it was in have failed. That
is how a call of the host ends if it fails in an instruction; an exception that nobody
catches leaves no frame either, and only an object that cannot be thrown, because it is
not live, leaves the frames where they were. The object that a slice returns is kept until
the next instruction starts; that of an execution which had ended before is not.
-/

namespace Jvm

/-- Whether an execution is as before a call: nothing runs, waits or is kept back. -/
structure Execution.AtRest (exec : Execution) : Prop where
  idle : exec.method = none
  empty : exec.stack.sp = 0
  start : exec.pc = 0 ∧ exec.startSp = 0
  unthrown : exec.pendingException = none
  awake : exec.wakeAt = none

theorem Execution.atRest_reset (exec : Execution) : exec.reset.AtRest :=
  ⟨rfl, rfl, ⟨rfl, rfl⟩, rfl, rfl⟩

namespace Machine

/-! ## Giving up an execution -/

section

variable (machine : Machine)

/-- A monitor after an execution gave up all that it held. -/
theorem monitor?_releaseLocks (exec : ExecId) (lock : Lock) :
    (machine.releaseLocks exec).monitor? lock =
      (machine.monitor? lock).map fun monitor =>
        if monitor.heldBy exec then Monitor.free else monitor := by
  cases lock with
  | object ref =>
      simp only [monitor?, releaseLocks, modifyTable, modifyHeap, Heap.get?, Heap.releaseMonitors,
        Array.getD_eq_getD_getElem?, Array.getElem?_map]
      cases machine.heap.objects[ref.index]? with
      | none => rfl
      | some place =>
          cases place with
          | none => rfl
          | some object =>
              simp only [Option.map_some, Option.getD_some]
              split <;> rfl
  | cls id =>
      simp only [monitor?, cls, releaseLocks, modifyTable, modifyHeap, ClassTable.get,
        Array.getD_eq_getD_getElem?, Array.getElem?_map, Option.map_some]
      cases machine.registry.classes[id.index]? with
      | none => rfl
      | some cls =>
          simp only [Option.map_some, Option.getD_some]
          split <;> rfl

theorem monitor?_leaveInitializers (methods : List MethodId) (lock : Lock) :
    (methods.foldl (fun machine id => machine.leaveInitializer id false) machine).monitor? lock =
      machine.monitor? lock := by
  induction methods generalizing machine with
  | nil => rfl
  | cons id methods ih =>
      rw [List.foldl_cons, ih, monitor?_leaveInitializer]

theorem exec_leaveInitializers (methods : List MethodId) :
    (methods.foldl (fun machine id => machine.leaveInitializer id false) machine).exec =
      machine.exec := by
  induction methods generalizing machine with
  | nil => rfl
  | cons id methods ih => rw [List.foldl_cons, ih, exec_leaveInitializer]

theorem method_releaseLocks (exec : ExecId) (method : MethodId) :
    (machine.releaseLocks exec).method method = machine.method method := by
  simp only [Machine.method, releaseLocks, modifyTable, modifyHeap, ClassTable.method,
    ClassTable.get, Array.getD_eq_getD_getElem?, Array.getElem?_map]
  cases machine.registry.classes[method.owner.index]? with
  | none => rfl
  | some cls =>
      simp only [Option.map_some, Option.getD_some]
      split <;> rfl

end

/-- How a machine changes when its running execution is given up. -/
structure GivesUp (before after : Machine) : Prop where
  rests : after.exec.AtRest
  id : after.exec.id = before.exec.id
  locks : ∀ lock, after.monitor? lock = (before.monitor? lock).map fun monitor =>
    if monitor.heldBy before.exec.id then Monitor.free else monitor
  failed : before.Failed after before.exec.frames

section

variable {machine : Machine} (closed : machine.Closed)

include closed

/-- The classes of several initializers fail together, and stay failed. -/
theorem failed_leaveInitializers {methods : List MethodId}
    (known : ∀ id ∈ methods, machine.registry.Has id.owner) :
    machine.Unwinds (methods.foldl (fun machine id => machine.leaveInitializer id false) machine) ∧
      ∀ id ∈ methods, (machine.method id).isInitializer = true →
        ((methods.foldl (fun machine id => machine.leaveInitializer id false) machine).cls
          id.owner).initState = .failed := by
  induction methods generalizing machine with
  | nil => exact ⟨.refl closed, fun _ member => absurd member List.not_mem_nil⟩
  | cons id methods ih =>
      have first := unwinds_leaveInitializer closed id
      obtain ⟨rest, failed⟩ := ih first.closed fun other member =>
        first.classes.has (known other (.tail _ member))
      refine ⟨first.trans rest, fun other member initializer => ?_⟩
      rcases List.mem_cons.mp member with rfl | member
      · exact rest.classes.failed _ (first.classes.has (known other (.head _)))
          (initState_leaveInitializer (known other (.head _)) initializer)
      · apply failed other member
        rw [method_leaveInitializer]
        exact initializer

/-- An execution that is given up is at rest and holds no lock, while the others hold theirs;
the classes whose initializers it was in have failed. -/
theorem givesUp_abandonExecution
    (owners : ∀ frame ∈ machine.exec.frames, machine.registry.Has frame.method.owner) :
    machine.GivesUp machine.abandonExecution := by
  have released := closed.calm_releaseLocks machine.exec.id
  have known : ∀ id ∈ machine.exec.frames.map (·.method),
      (machine.releaseLocks machine.exec.id).registry.Has id.owner := by
    intro id member
    obtain ⟨frame, found, rfl⟩ := List.mem_map.mp member
    exact released.grows.has (owners frame found)
  obtain ⟨-, failed⟩ := failed_leaveInitializers released.closed known
  refine ⟨Execution.atRest_reset _, ?_, ?_, ?_⟩
  · exact congrArg (fun exec => exec.reset.id) (exec_leaveInitializers _ _)
  · intro lock
    rw [abandonExecution, monitor?_modifyExec, monitor?_leaveInitializers, monitor?_releaseLocks]
  · intro frame member initializer
    apply failed _ (List.mem_map_of_mem member)
    rw [method_releaseLocks]
    exact initializer

end

end Machine

namespace Guest

/-! ## Exceptions that nobody catches -/

theorem never_linkClass (id : ClassId) (index : UInt16) (machine : Machine) :
    Ends (linkClass id index) machine (fun _ _ => True) fun _ _ => False := by
  rw [linkClass, ends_bind, ends_get]
  dsimp only
  split
  · exact ends_pure.mpr trivial
  · exact ends_pure.mpr trivial
  · split
    · exact ends_pure.mpr trivial
    · rw [ends_bind]
      refine Ends.of_ok rfl ?_
      split
      · exact ends_pure.mpr trivial
      · exact Ends.of_ok rfl trivial
  · exact ends_pure.mpr trivial

theorem never_findHandlerIn (owner : ClassId) (pc : UInt32) (thrown : ClassId)
    (handlers : List Handler) (machine : Machine) :
    Ends (findHandlerIn owner pc thrown handlers) machine (fun _ _ => True) fun _ _ => False := by
  induction handlers generalizing machine with
  | nil => exact ends_pure.mpr trivial
  | cons handler rest ih =>
      rw [findHandlerIn]
      split
      · exact ih machine
      · split
        · exact ends_pure.mpr trivial
        · rw [ends_bind]
          refine (never_linkClass owner handler.catchType machine).mono ?_ fun _ _ never => never
          rintro linked after -
          cases linked with
          | error error => exact ih after
          | ok caught =>
              simp only [ends_bind, ends_get]
              split
              · exact ends_pure.mpr trivial
              · exact ih after

theorem never_findHandler (id : MethodId) (pc : UInt32) (thrown : ClassId) (machine : Machine) :
    Ends (findHandler id pc thrown) machine (fun _ _ => True) fun _ _ => False := by
  rw [findHandler, ends_bind, ends_get]
  split
  · exact never_findHandlerIn _ _ _ _ _
  · exact ends_pure.mpr trivial

end Guest

/-- The errors that tell that an execution did not come to its end: the object thrown is not
live, there was nothing to run, or a bound on the evaluation was reached. -/
inductive Error.Stalls : Error → Prop
  | thrownNotLive (ref : Ref) : Stalls (.invalidState (.thrownNotLive ref))
  | nothingToRun (exec : ExecId) : Stalls (.invalidState (.nothingToRun exec))
  | exhausted : Stalls .exhausted

/-- How a slice fails: it stalls, nobody catches an exception, or the execution is given up. -/
inductive Machine.Fails (machine : Machine) : Error → Prop
  | stalls {error : Error} (stalls : error.Stalls) : Fails machine error
  | uncaught {className : String} {message : Option String} {trace : List String}
      (rests : machine.exec.AtRest) : Fails machine (.uncaught className message trace)
  | abandoned {error : Error} (last : Machine) (givenUp : machine = last.abandonExecution) :
      Fails machine error

/-- Whether the running execution is at rest after an error, unless it stalled. -/
def Machine.RestsAfter (machine : Machine) (error : Error) : Prop :=
  ¬error.Stalls → machine.exec.AtRest

theorem Machine.atRest_abandonExecution (machine : Machine) :
    machine.abandonExecution.exec.AtRest := Execution.atRest_reset _

/-- An execution that failed and did not stall is at rest. -/
theorem Machine.Fails.rests {machine : Machine} {error : Error} (fails : machine.Fails error) :
    machine.RestsAfter error := by
  intro ended
  cases fails with
  | stalls stalls => exact (ended stalls).elim
  | uncaught rests => exact rests
  | abandoned last givenUp => exact givenUp ▸ last.atRest_abandonExecution

namespace Guest

/-- An exception leaves the execution at rest if nobody catches it. -/
theorem fails_unwindFrames (ref : Ref) (thrown : ClassId) (fuel : Nat)
    (trace : List (MethodId × UInt32)) (machine : Machine) :
    Ends (unwindFrames ref thrown fuel trace) machine (fun _ _ => True)
      fun raised after => ∃ error, raised = .fatal error ∧ after.Fails error := by
  induction fuel generalizing trace machine with
  | zero => exact ends_throw.mpr ⟨_, rfl, .stalls .exhausted⟩
  | succ fuel ih =>
      rw [unwindFrames, ends_bind, ends_get]
      split
      next =>
          rw [ends_bind, ends_modify]
          exact ends_throw.mpr ⟨_, rfl, .uncaught (Execution.atRest_reset _)⟩
      next id _ =>
          rw [ends_bind]
          refine (never_findHandler id machine.exec.pc thrown machine).mono ?_
            fun _ _ never => never.elim
          rintro handler after -
          cases handler with
          | some handlerPc => exact Ends.of_ok rfl trivial
          | none =>
              rw [ends_bind, ends_modify]
              exact ih _ _

theorem fails_unwind (ref : Ref) (machine : Machine) :
    Ends (unwind ref) machine (fun _ _ => True)
      fun raised after => ∃ error, raised = .fatal error ∧ after.Fails error := by
  rw [unwind, ends_bind, ends_get]
  split
  · exact ends_throw.mpr ⟨_, rfl, .stalls (.thrownNotLive ref)⟩
  · exact fails_unwindFrames ref _ _ _ machine

end Guest

namespace Host

theorem fails_unwind (ref : Ref) (machine : Machine) :
    Ends (unwind ref) machine (fun _ _ => True) fun error after => after.Fails error := by
  have guest := Guest.fails_unwind ref machine
  simp only [Ends, unwind, ofGuest] at guest ⊢
  cases ran : Guest.unwind ref machine with
  | ok value after => trivial
  | error raised after =>
      rw [ran] at guest
      obtain ⟨error, rfl, fails⟩ := guest
      exact fails

/-! ## Slices -/

/-- What holds when a slice has brought the running execution to its end: that is idle, and
the object that it returns is kept until the next instruction starts. -/
def Delivers (value : Value) (machine : Machine) : Prop :=
  machine.exec.method = none ∧ ∀ ref, value = .ref (some ref) → ref ∈ machine.heap.pending

theorem delivers_protectResult {machine : Machine} (idle : machine.exec.method = none)
    (value : Value) : Delivers value (machine.protectResult value) := by
  have kept : (machine.protectResult value).exec = machine.exec := by
    rw [Machine.protectResult.eq_def]
    split <;> rfl
  refine ⟨kept ▸ idle, ?_⟩
  rintro ref rfl
  exact List.mem_cons_self

theorem ends_afterStep {ended : Except Throw Step} {machine : Machine}
    (idle : ∀ value, ended = .ok (.returned value) → machine.exec.method = none) :
    Ends (afterStep ended) machine
      (fun outcome after => ∀ value, outcome = some (.finished value) → Delivers value after)
      fun error after => after.Fails error := by
  cases ended with
  | ok step =>
      cases step with
      | blocked => exact ends_pure.mpr (by rintro _ ⟨⟩)
      | next =>
          simp only [afterStep, ends_bind, ends_modify, ends_get]
          split
          · simp only [ends_bind, ends_modify, ends_get]
            split <;> exact ends_pure.mpr (by rintro _ ⟨⟩)
          · exact ends_pure.mpr (by rintro _ ⟨⟩)
      | returned value =>
          simp only [afterStep, ends_bind, ends_modify, ends_pure]
          rintro _ ⟨⟩
          exact @delivers_protectResult machine.countStep (idle value rfl) value
      | suspended =>
          simp only [afterStep, ends_bind, ends_modify, ends_pure]
          rintro _ ⟨⟩
  | error raised =>
      cases raised with
      | exception ref =>
          simp only [afterStep, ends_bind, ends_modify, ends_modifyGet]
          split
          · exact ends_pure.mpr (by rintro _ ⟨⟩)
          · rw [ends_bind]
            refine (fails_unwind ref _).mono (fun _ _ _ => ?_) fun _ _ fails => fails
            exact ends_pure.mpr (by rintro _ ⟨⟩)
      | fatal error =>
          simp only [afterStep, ends_bind, ends_modify, ends_throw]
          exact .abandoned _ rfl

section

variable (reentry : Reentry) (machine : Machine)

/-- An instruction that ends the execution delivers its value, and one that fails leaves no
frame behind. -/
theorem ends_runStep :
    Ends (runStep reentry) machine
      (fun outcome after => ∀ value, outcome = some (.finished value) → Delivers value after)
      fun error after => after.Fails error := by
  rw [runStep, ends_bind, ends_modify, ends_bind, ends_get]
  split
  next ref _ =>
      rw [ends_bind, ends_modify, ends_bind]
      refine (fails_unwind ref _).mono (fun _ _ _ => ?_) fun _ _ fails => fails
      exact ends_pure.mpr (by rintro _ ⟨⟩)
  next =>
      have steps := Guest.ReturnsIdle.step reentry (machine.modifyHeap Heap.clearPending)
      rw [ends_bind, ends_attempt]
      refine steps.mono ?_ ?_
      · intro ended after idle
        exact ends_afterStep fun value same => idle.1 value (Except.ok.inj same)
      · exact fun _ _ _ => ends_afterStep (by rintro _ ⟨⟩)

variable {reentry machine} in
/-- An instruction that fails ends the execution for good: it holds no lock any more, and no
class whose initializer it was in is left half initialized. -/
theorem givesUp_runStep {thrower : Machine} {error : Error}
    (unthrown : machine.exec.pendingException = none)
    (failed : Guest.step reentry (machine.modifyHeap Heap.clearPending) =
      .error (.fatal error) thrower)
    (closed : thrower.Closed)
    (owners : ∀ frame ∈ thrower.exec.frames, thrower.registry.Has frame.method.owner) :
    ∃ after, runStep reentry machine = .error error after ∧ thrower.GivesUp after := by
  have given := Machine.givesUp_abandonExecution (calm_countStep closed).closed owners
  refine ⟨thrower.countStep.abandonExecution, ?_, given.rests, given.id, given.locks, given.failed⟩
  have kept : (machine.modifyHeap Heap.clearPending).exec.pendingException = none := unthrown
  simp only [runStep, bind, EStateM.bind, run_modify, run_get, kept, attempt, failed]
  rfl

theorem ends_runSteps (budget : Nat) :
    Ends (runSteps reentry budget) machine
      (fun outcome after => ∀ value, outcome = .finished value → Delivers value after)
      fun error after => after.Fails error := by
  induction budget generalizing machine with
  | zero => exact ends_pure.mpr nofun
  | succ budget ih =>
      rw [runSteps, ends_bind]
      refine (ends_runStep reentry machine).mono ?_ fun _ _ fails => fails
      intro outcome after delivers
      cases outcome with
      | none => exact ih after
      | some outcome =>
          refine ends_pure.mpr fun value same => delivers value (congrArg some same)

/-- A slice that brings its execution to the end leaves it idle and keeps the object that it
returns; one that fails leaves no frame behind, unless it stalls. -/
theorem ends_runSlice (budget : Nat) :
    Ends (runSlice reentry budget) machine
      (fun outcome after => ∀ value, outcome = .finished value → Delivers value after)
      fun error after => after.Fails error := by
  rw [runSlice, ends_bind, ends_get]
  split
  · exact ends_throw.mpr (.stalls (.nothingToRun _))
  · split
    · exact ends_pure.mpr nofun
    · rw [ends_bind, ends_modify]
      exact ends_runSteps reentry _ budget

end

/-! ## Calls -/

theorem rests_abandon {α : Type} (error : Error) (machine : Machine)
    (returned : α → Machine → Prop) :
    Ends (abandon error) machine returned fun error after => after.RestsAfter error := by
  rw [abandon, ends_bind, ends_modify]
  exact ends_throw.mpr fun _ => machine.atRest_abandonExecution

theorem rests_runGuestSlice (reentry : Reentry) (round : GuestRound) (id : ExecId)
    (machine : Machine) :
    Ends (runGuestSlice reentry round id) machine (fun _ _ => True)
      fun error after => after.RestsAfter error := by
  rw [runGuestSlice, ends_bind, ends_catching]
  refine (ends_trivial _ machine).mono ?_ ?_
  · rintro outcome after -
    cases outcome with
    | finished value => exact Ends.of_ok rfl trivial
    | suspended => exact ends_throw.mpr fun ended => (ended .exhausted).elim
    | yielded | blocked | sleeping => exact ends_pure.mpr trivial
  · exact fun _ _ _ => Ends.of_ok rfl trivial

theorem rests_runGuestSlices (reentry : Reentry) (machine : Machine) :
    Ends (runGuestSlices reentry) machine (fun _ _ => True)
      fun error after => after.RestsAfter error := by
  have rounds : ∀ (ids : List ExecId) (round : GuestRound) (machine : Machine),
      Ends (ids.foldlM (runGuestSlice reentry) round) machine (fun _ _ => True)
        fun error after => after.RestsAfter error := by
    intro ids
    induction ids with
    | nil => exact fun _ _ => ends_pure.mpr trivial
    | cons id ids ih =>
        intro round machine
        rw [List.foldlM_cons, ends_bind]
        exact (rests_runGuestSlice reentry round id machine).mono
          (fun round after _ => ih round after) fun _ _ rests => rests
  rw [runGuestSlices, ends_bind, ends_get]
  exact rounds _ _ machine

theorem rests_betweenSlices (reentry : Reentry) (before : Nat) (blocked : Bool)
    (wakeAt : Option Instant) (machine : Machine) :
    Ends (betweenSlices reentry before blocked wakeAt) machine (fun _ _ => True)
      fun error after => after.RestsAfter error := by
  rw [betweenSlices.eq_def, ends_bind, ends_get]
  split
  · dsimp only
    split
    · rw [ends_bind]
      exact (rests_abandon _ machine fun _ _ => False).mono (fun _ _ never => never.elim)
        fun _ _ rests => rests
    · cases wakeAt with
      | none => exact ends_pure.mpr trivial
      | some wakeAt => exact Ends.of_ok rfl trivial
  · rw [ends_bind]
    refine (rests_runGuestSlices reentry machine).mono ?_ fun _ _ rests => rests
    rintro round after -
    rw [ends_bind, ends_get]
    split
    · split
      · exact Ends.of_ok rfl trivial
      · split
        · exact rests_abandon _ after _
        · exact ends_pure.mpr trivial
    · exact ends_pure.mpr trivial

/-- A call that comes to its end leaves an idle execution; one that fails leaves it at rest,
unless it stalls. -/
theorem ends_runToCompletion (reentry : Reentry) (fuel : Nat) (machine : Machine) :
    Ends (runToCompletion reentry fuel) machine Delivers
      fun error after => after.RestsAfter error := by
  induction fuel generalizing machine with
  | zero => exact ends_throw.mpr fun ended => (ended .exhausted).elim
  | succ fuel ih =>
      have goesOn : ∀ (before : Nat) (blocked : Bool) (wakeAt : Option Instant)
          (machine : Machine), Ends (do
            betweenSlices reentry before blocked wakeAt
            runToCompletion reentry fuel) machine Delivers
              fun error after => after.RestsAfter error := by
        intro before blocked wakeAt machine
        rw [ends_bind]
        exact (rests_betweenSlices reentry before blocked wakeAt machine).mono
          (fun _ after _ => ih after) fun _ _ rests => rests
      rw [runToCompletion, ends_bind, ends_get]
      split
      · exact rests_abandon _ machine _
      · simp only [ends_bind, ends_get]
        refine (ends_runSlice reentry machine machine.config.sliceBudget).mono ?_
          fun _ _ fails => fails.rests
        intro outcome after delivers
        cases outcome with
        | finished value => exact ends_pure.mpr (delivers value rfl)
        | suspended => exact ends_throw.mpr fun ended => (ended .exhausted).elim
        | yielded | blocked | sleeping => exact goesOn _ _ _ after

section

variable {α : Type} {machine : Machine}

theorem rests_settle (ended : Except Throw α) :
    Ends (settle ended) machine (fun _ _ => True) fun error after => after.RestsAfter error := by
  cases ended with
  | ok value => exact ends_pure.mpr trivial
  | error raised =>
      cases raised with
      | exception ref =>
          rw [settle, ends_bind]
          exact (fails_unwind ref machine).mono (fun _ _ _ => ends_pure.mpr trivial)
            fun _ _ fails => fails.rests
      | fatal error =>
          rw [settle, resetExec, ends_bind, ends_modify]
          exact ends_throw.mpr fun _ => Execution.atRest_reset _

variable {complete : Host Value}
  (completes : ∀ machine : Machine,
    Ends complete machine Delivers fun error after => after.RestsAfter error)
  (reentry : Reentry) (id : MethodId) (arguments : List Value)

include completes

theorem rests_initializeClass (cls : ClassId) :
    Ends (initializeClass complete cls) machine (fun _ _ => True)
      fun error after => after.RestsAfter error := by
  rw [initializeClass, ends_bind, ends_attempt]
  have settled : ∀ (ended : Except Throw Bool) (after : Machine), Ends (do
      let pushed ← settle ended
      if pushed.getD true then
        let _ ← complete : Host Unit) after (fun _ _ => True)
          fun error after => after.RestsAfter error := by
    intro ended after
    rw [ends_bind]
    refine (rests_settle ended).mono ?_ fun _ _ rests => rests
    rintro pushed after -
    split
    · rw [ends_bind]
      exact (completes after).mono (fun _ _ _ => ends_pure.mpr trivial) fun _ _ rests => rests
    · exact ends_pure.mpr trivial
  exact (ends_trivial _ machine).mono (fun _ after _ => settled _ after)
    fun _ after _ => settled _ after

theorem ends_stageNative :
    Ends (stageNative reentry complete id arguments) machine
      (fun value after => value.isSome → after.exec.AtRest)
      fun error after => after.RestsAfter error := by
  have settled : ∀ (ended : Except Throw Value) (after : Machine), Ends (do
      let value ← settle ended
      if value.isSome then resetExec
      pure value : Host (Option Value)) after (fun value after => value.isSome → after.exec.AtRest)
        fun error after => after.RestsAfter error := by
    intro ended after
    rw [ends_bind]
    refine (rests_settle ended).mono ?_ fun _ _ rests => rests
    rintro value after -
    cases value with
    | none => exact ends_pure.mpr nofun
    | some value => exact Ends.of_ok rfl fun _ => Execution.atRest_reset _
  rw [stageNative, ends_bind]
  refine (rests_initializeClass completes id.owner).mono ?_ fun _ _ rests => rests
  rintro - after -
  rw [pushArguments, ends_bind, ends_modify, ends_bind, ends_attempt]
  exact (ends_trivial _ _).mono (fun _ after _ => settled _ after) fun _ after _ => settled _ after

theorem ends_stageCall :
    Ends (stageCall reentry complete id arguments) machine
      (fun value after => value.isSome → after.exec.AtRest)
      fun error after => after.RestsAfter error := by
  rw [stageCall, ends_bind, ends_get]
  split
  · exact ends_stageNative completes reentry id arguments
  · have settled : ∀ (ended : Except Throw Unit) (after : Machine), Ends (do
        let _ ← settle ended
        pure none : Host (Option Value)) after (fun value after => value.isSome → after.exec.AtRest)
          fun error after => after.RestsAfter error := by
      intro ended after
      rw [ends_bind]
      exact (rests_settle ended).mono (fun _ _ _ => ends_pure.mpr nofun) fun _ _ rests => rests
    rw [pushArguments, ends_bind, ends_modify, ends_bind, ends_attempt]
    exact (ends_trivial _ _).mono (fun _ after _ => settled _ after)
      fun _ after _ => settled _ after

/-- A call is refused and changes nothing, or it is staged. -/
theorem ends_enterMethod :
    Ends (enterMethod reentry complete id arguments) machine
      (fun value after => value.isSome → after.exec.AtRest)
      fun error after => after = machine ∨ after.RestsAfter error := by
  rw [enterMethod, ends_bind, ends_get]
  split
  · exact ends_throw.mpr (.inl rfl)
  · split
    · exact ends_throw.mpr (.inl rfl)
    · simp only [resetExec, ends_bind, ends_modify, ends_catching]
      refine (ends_stageCall completes reentry id arguments).mono ?_ ?_
      · exact fun _ _ rests => ends_pure.mpr rests
      · exact fun _ _ rests => ends_throw.mpr (.inr rests)

end

/-- A machine can be called again. A call that the host makes leaves an idle execution when it
returns; when it fails, it was refused and changed nothing, or the execution is at rest: no
frame and no operand is left, no exception is kept back and nobody sleeps. That is so
unless the call stalled, which is what an object does that is thrown and is not live. -/
theorem ends_invoke (bounds : Bounds) (method : MethodId) (arguments : List Value)
    (machine : Machine) :
    Ends (invoke bounds method arguments) machine (fun _ after => after.exec.method = none)
      fun error after => after = machine ∨ after.RestsAfter error := by
  have completes := ends_runToCompletion bounds.reentry bounds.slices
  rw [invoke, ends_bind]
  refine (ends_enterMethod completes bounds.reentry method arguments).mono ?_ fun _ _ fails => fails
  intro value after rests
  cases value with
  | some value => exact ends_pure.mpr (rests rfl).idle
  | none =>
      exact (completes after).mono (fun _ _ delivers => delivers.1) fun _ _ rests => .inr rests

/-! ## What a slice hands over -/

theorem heap_switchBack (machine : Machine) (id : ExecId) :
    (machine.switchBack id).2.heap = machine.heap := by
  rw [Machine.switchBack, Machine.unpark]
  cases machine.parked.find? (·.id == id) <;> rfl

/-- The object that a slice of a parked execution returns can be used until the next
instruction starts: no collection before that frees it. -/
theorem reachable_runParkedSlice (reentry : Reentry) {id : ExecId} {machine : Machine}
    (unfinished : machine.takeCompleted id = none) :
    Ends (runParkedSlice reentry id) machine
      (fun outcome after => ∀ ref, outcome = .finished (.ref (some ref)) → after.Reachable ref)
      fun _ _ => True := by
  simp only [Ends, runParkedSlice, unfinished]
  cases machine.unpark id with
  | none => trivial
  | some found =>
      obtain ⟨exec, waiting⟩ := found
      by_cases terminated : (waiting.switchTo exec).terminated = true
      · simp only [if_pos terminated]
      · simp only [if_neg terminated]
        have slice := ends_runSlice reentry (waiting.switchTo exec)
          (waiting.switchTo exec).config.sliceBudget
        cases ran : runSlice reentry (waiting.switchTo exec).config.sliceBudget
            (waiting.switchTo exec) with
        | error error after => trivial
        | ok outcome after =>
            have delivers := ends_of_ok ran slice
            cases outcome with
            | finished value =>
                rintro ref ⟨⟩
                have kept := (delivers _ rfl).2 ref rfl
                exact .root (.pending (heap_switchBack after _ ▸ kept))
            | yielded | blocked | suspended | sleeping => rintro ref ⟨⟩

/-- A machine with an object that nothing names but the result of an execution that ended
before its first slice. -/
def awaited : Machine where
  config := {}
  registry := Registry.ofPath {}
  known := default
  heap := { Heap.ofConfig {} with
    objects := #[some { cls := ⟨0⟩, hash := 1, body := .instance default }] }
  exec := Execution.idle Execution.mainId 64
  completed := [(2, .ref (some (Ref.ofIndex 0)))]

/-- The machine once that result was handed over. -/
def handedOver : Machine := { awaited with completed := [] }

theorem not_names_handedOver (ref : Ref) : ¬handedOver.Names ref := by
  intro named
  cases named with
  | pending held => cases held
  | pinned held => cases held
  | @sticky index object place kept =>
      match index with
      | 0 =>
          cases place
          cases kept
      | index + 1 => cases place
  | interned canonical => cases Std.HashMap.getElem?_empty.symm.trans canonical
  | cls linked held => exact absurd linked (Array.not_mem_empty _)
  | outOfMemory held => cases held
  | running held =>
      cases held with
      | slot below tagged held => cases below
      | pendingException held | threadObject held => cases held
  | parked waits held => cases waits
  | completed kept => cases kept

/-- An object that comes from an execution that ended before its first slice is not kept: the
next collection frees it, although no instruction has started since. -/
theorem completed_unreachable (reentry : Reentry) :
    awaited.Reachable (Ref.ofIndex 0) ∧
      runParkedSlice reentry 2 awaited =
        .ok (.finished (.ref (some (Ref.ofIndex 0)))) handedOver ∧
      handedOver.heap.isLive (Ref.ofIndex 0) = true ∧
      handedOver.collectGarbage.2.heap.get? (Ref.ofIndex 0) = none := by
  refine ⟨.root (.completed (.head _)), rfl, rfl, ?_⟩
  have unreachable : ∀ ref, ¬handedOver.Reachable ref := by
    intro ref reached
    induction reached with
    | root named => exact not_names_handedOver _ named
    | edge _ _ _ ih => exact ih
  have unmarked : handedOver.heap.Unmarked
    | 0 | _ + 1 => rfl
  cases survives : handedOver.collectGarbage.2.heap.get? (Ref.ofIndex 0) with
  | none => rfl
  | some object =>
      exact absurd ((Machine.get?_collectGarbage unmarked _ _).mp survives).2 (unreachable _)

end Host

end Jvm
