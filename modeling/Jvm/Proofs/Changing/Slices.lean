import Jvm.Machine.Host
import Jvm.Proofs.Changing.Instructions
import Jvm.Machine.Breakpoints
import Jvm.Machine.Inspect

/-!
# Slices and staged calls keep objects in shape

Slices run instructions; schedules run slices and wait; calls of the host stage frames and
run them to their ends. The nesting of calls is an induction on its bound, so no
assumption on natives is left.
-/

namespace Jvm

open Machine

namespace Host

variable {α : Type}

/-! ## Slices -/

theorem paces_attempt {step : Guest α} (paces : Paces step) : Paces (attempt step) :=
  fun machine => moves_attempt (paces machine)

theorem paces_catching {step : Host α} (paces : Paces step) : Paces (catching step) :=
  fun machine => moves_catching (paces machine)

theorem shapes_protectResult (machine : Machine) (value : Value) :
    Shapes machine (machine.protectResult value) := by
  rw [protectResult.eq_def]
  split
  · exact shapes_modifyHeap (.protect _ _)
  · exact .refl

theorem paces_countStep : Paces (modify Machine.countStep : Host PUnit) :=
  .modify fun _ => .single (.frames trivial rfl rfl rfl rfl)

theorem paces_afterStep (ended : Except Throw Step) : Paces (afterStep ended) := by
  rw [afterStep.eq_def]
  split
  · exact .pure _
  · refine paces_countStep.bind fun _ => PacesIn.get.bind fun machine => ?_
    split
    · refine PacesIn.bind (.modify fun _ => .single (.frames trivial rfl rfl rfl rfl)) fun _ =>
        PacesIn.get.bind fun machine => ?_
      split <;> exact .pure _
    · exact .pure _
  · refine PacesIn.bind (.modify fun machine => ?_) fun _ => .pure _
    have stepped : Shapes machine machine.countStep := .single (.frames trivial rfl rfl rfl rfl)
    exact stepped.trans (shapes_protectResult _ _)
  · exact paces_countStep.bind fun _ => .pure _
  · refine paces_countStep.bind fun _ =>
      PacesIn.bind (.modifyGet fun machine => machine.shapes_stopOnThrow _) fun stopped => ?_
    split
    · exact .pure _
    · exact (paces_unwind _).bind fun _ => .pure _
  · refine PacesIn.bind (.modify fun machine => ?_) fun _ => .throw _
    have stepped : Shapes machine machine.countStep := .single (.frames trivial rfl rfl rfl rfl)
    exact stepped.trans (shapes_abandonExecution _)

section

variable {reentry : Reentry} (paces : reentry.Paces)

include paces

theorem paces_runStep : Paces (runStep reentry) := by
  refine PacesIn.bind (.modify fun _ => shapes_modifyHeap (.clearPending _)) fun _ =>
    PacesIn.get.bind fun machine => ?_
  split
  · exact PacesIn.bind (.modify fun _ => shapes_modifyExec fun _ => ⟨rfl, rfl, rfl⟩) fun _ =>
      (paces_unwind _).bind fun _ => .pure _
  · exact (paces_attempt (Guest.paces_step paces)).bind paces_afterStep

theorem paces_runSteps (budget : Nat) : Paces (runSteps reentry budget) := by
  induction budget with
  | zero => exact .pure _
  | succ budget ih =>
      refine (paces_runStep paces).bind fun outcome => ?_
      split
      · exact .pure _
      · exact ih

theorem paces_runSlice (budget : Nat) : Paces (runSlice reentry budget) := by
  refine PacesIn.get.bind fun machine => ?_
  dsimp only
  split
  · exact paces_fault _
  · split
    · exact .pure _
    · exact PacesIn.bind (.modify fun _ => .single (.frames trivial rfl rfl rfl rfl)) fun _ =>
        paces_runSteps paces budget

/-- An execution that runs for a slice changes places with the current one. -/
theorem paces_runParkedSlice (id : ExecId) : Paces (runParkedSlice reentry id) := by
  intro machine
  simp only [Moves, Ends, runParkedSlice]
  cases done : machine.takeCompleted id with
  | some finished =>
      obtain ⟨place, -, rfl⟩ := Option.map_eq_some_iff.mp done
      exact ⟨.single (.frames trivial rfl rfl rfl rfl), trivial⟩
  | none =>
      cases found : machine.unpark id with
      | none => exact .refl
      | some taken =>
          obtain ⟨exec, -, rfl⟩ := Option.map_eq_some_iff.mp found
          dsimp only
          generalize resumes : Machine.switchTo _ _ = resumed
          have reached : Shapes machine resumed := by
            rw [← resumes]
            exact .single (.frames trivial rfl rfl rfl rfl)
          by_cases terminated : resumed.terminated = true
          · simp only [if_pos terminated]
            exact (reached.trans resumed.shapes_abandonExecution).trans (shapes_switchBack _ _)
          · simp only [if_neg terminated]
            cases ran : runSlice reentry resumed.config.sliceBudget resumed with
            | error error after =>
                exact (reached.trans ((paces_runSlice paces _).error ran)).trans
                  (after.shapes_switchBack _)
            | ok outcome after =>
                have back := (reached.trans ((paces_runSlice paces _).ok ran)).trans
                  (after.shapes_switchBack machine.exec.id)
                cases outcome with
                | finished value => exact ⟨back, trivial⟩
                | _ => exact ⟨back.trans (shapes_park _ _), trivial⟩

/-! ## Schedules -/

end

theorem paces_sleepUntil (wakeAt : Instant) :
    Paces (modify fun machine => machine.sleepUntil wakeAt : Host PUnit) :=
  .modify fun _ => .single (.frames trivial rfl rfl rfl rfl)

theorem shapes_reportDeath (machine : Machine) (id : ExecId) (error : Error) :
    Shapes machine (machine.reportDeath id error) := by
  rw [reportDeath.eq_def]
  split
  · rw [write]
    split <;> exact .single (.frames trivial rfl rfl rfl rfl)
  · exact .refl

theorem shapes_forgetThread (machine : Machine) (id : ExecId) :
    Shapes machine (machine.forgetThread id) :=
  .single (.frames trivial rfl rfl rfl rfl)

theorem shapes_discardExecution (machine : Machine) (id : ExecId) :
    Shapes machine (machine.discardExecution id) := by
  rw [discardExecution]
  dsimp only
  split
  next => exact .single (.frames trivial rfl rfl rfl rfl)
  next exec rest found =>
      obtain ⟨place, -, same⟩ := Option.map_eq_some_iff.mp found
      cases same
      dsimp only
      generalize resumes : Machine.switchTo _ _ = resumed
      have reached : Shapes machine resumed := by
        rw [← resumes]
        exact .single (.frames trivial rfl rfl rfl rfl)
      exact (reached.trans resumed.shapes_abandonExecution).trans (shapes_switchBack _ _)

theorem paces_abandon (error : Error) : Paces (abandon error : Host α) :=
  PacesIn.bind (.modify fun machine => machine.shapes_abandonExecution) fun _ => .throw _

theorem paces_abandonThreads : Paces abandonThreads := by
  refine PacesIn.get.bind fun machine => PacesIn.bind (.modify fun machine => ?_) fun _ =>
    paces_fault _
  have discards : ∀ (ids : List ExecId) (start : Machine),
      Shapes start (ids.foldl Machine.discardExecution start) := by
    intro ids
    induction ids with
    | nil => exact fun _ => .refl
    | cons id rest ih => exact fun start => (shapes_discardExecution start id).trans (ih _)
  have forgotten : Shapes machine { machine with guestThreads := [] } :=
    .single (.frames trivial rfl rfl rfl rfl)
  exact forgotten.trans (discards _ _)

section

variable {reentry : Reentry} (paces : reentry.Paces)

include paces

theorem paces_runGuestSlice (round : GuestRound) (id : ExecId) :
    Paces (runGuestSlice reentry round id) := by
  refine (paces_catching (paces_runParkedSlice paces id)).bind fun ended => ?_
  split
  · exact PacesIn.bind (.modify fun machine => shapes_forgetThread machine id) fun _ => .pure _
  · exact .pure _
  · exact .throw _
  · exact .pure _
  · refine PacesIn.bind (.modify fun machine => ?_) fun _ => .pure _
    exact (shapes_reportDeath machine id _).trans (shapes_forgetThread _ id)

theorem paces_runGuestSlices : Paces (runGuestSlices reentry) :=
  PacesIn.get.bind fun _ => .foldlM (paces_runGuestSlice paces) _

theorem paces_betweenSlices (before : Nat) (blocked : Bool) (wakeAt : Option Instant) :
    Paces (betweenSlices reentry before blocked wakeAt) := by
  refine PacesIn.get.bind fun machine => ?_
  split
  · cases wakeAt with
    | some wakeAt =>
        dsimp only
        split
        · exact (paces_abandon _).bind fun _ => paces_sleepUntil _
        · exact paces_sleepUntil _
    | none =>
        dsimp only
        split
        · exact (paces_abandon _).bind fun _ => .pure _
        · exact .pure _
  · refine (paces_runGuestSlices paces).bind fun round => PacesIn.get.bind fun machine => ?_
    split
    · split
      · exact paces_sleepUntil _
      · split
        · exact paces_abandon _
        · exact .pure _
    · exact .pure _

theorem paces_runToCompletion (fuel : Nat) : Paces (runToCompletion reentry fuel) := by
  induction fuel with
  | zero => exact .throw _
  | succ fuel ih =>
      refine PacesIn.get.bind fun machine => ?_
      split
      · exact paces_abandon _
      · refine PacesIn.get.bind fun machine => PacesIn.get.bind fun machine =>
          (paces_runSlice paces _).bind fun outcome => ?_
        split
        · exact .pure _
        · exact .throw _
        · exact (paces_betweenSlices paces _ _ _).bind fun _ => ih
        · exact (paces_betweenSlices paces _ _ _).bind fun _ => ih
        · exact (paces_betweenSlices paces _ _ _).bind fun _ => ih

theorem paces_joinThreads (fuel : Nat) : Paces (joinThreads reentry fuel) := by
  induction fuel with
  | zero => exact .throw _
  | succ fuel ih =>
      refine PacesIn.get.bind fun machine => ?_
      split
      · refine PacesIn.get.bind fun machine => ?_
        split
        · exact .throw _
        · exact .pure _
      · refine PacesIn.get.bind fun machine => (paces_runGuestSlices paces).bind fun round =>
          PacesIn.get.bind fun machine => ?_
        dsimp only
        split
        · split
          · exact (paces_sleepUntil _).bind fun _ => ih
          · exact paces_abandonThreads.bind fun _ => ih
        · exact ih

end

/-! ## Calls from the host -/

theorem paces_resetExec : Paces resetExec := .modify shapes_reset

theorem paces_settle (ended : Except Throw α) : Paces (settle ended) := by
  rw [settle.eq_def]
  split
  · exact .pure _
  · exact (paces_unwind _).bind fun _ => .pure _
  · exact paces_resetExec.bind fun _ => .throw _

theorem paces_initializeClass {complete : Host Value} (completes : Paces complete) (id : ClassId) :
    Paces (initializeClass complete id) := by
  refine (paces_attempt (Guest.paces_ensureInitialized trivial id 0)).bind fun ended =>
    (paces_settle ended).bind fun pushed => ?_
  split
  · exact completes.bind fun _ => .pure _
  · exact .pure _

theorem paces_pushArguments (arguments : List Value) : Paces (pushArguments arguments) :=
  .modify fun _ => shapes_modifyStack _

section

variable {reentry : Reentry} (paces : reentry.Paces) {complete : Host Value}
  (completes : Paces complete)

include paces

theorem paces_stageFrame (id : MethodId) : Paces (stageFrame reentry id) := by
  refine (Guest.paces_invoke paces id 0 0).bind fun step => ?_
  split
  · exact PacesIn.get.bind fun _ => Guest.paces_fault _
  · exact (Guest.paces_ensureInitialized trivial _ _).bind fun _ => .pure _

include completes

theorem paces_stageNative (id : MethodId) (arguments : List Value) :
    Paces (stageNative reentry complete id arguments) := by
  refine (paces_initializeClass completes id.owner).bind fun _ =>
    (paces_pushArguments arguments).bind fun _ =>
    (paces_attempt (Guest.paces_callNative paces id)).bind fun ended =>
    (paces_settle ended).bind fun value => ?_
  split
  · exact paces_resetExec.bind fun _ => .pure _
  · exact .pure _

theorem paces_stageCall (id : MethodId) (arguments : List Value) :
    Paces (stageCall reentry complete id arguments) := by
  refine PacesIn.get.bind fun machine => ?_
  split
  · exact paces_stageNative paces completes id arguments
  · exact (paces_pushArguments arguments).bind fun _ =>
      (paces_attempt (paces_stageFrame paces id)).bind fun ended =>
      (paces_settle ended).bind fun _ => .pure _

theorem paces_enterMethod (id : MethodId) (arguments : List Value) :
    Paces (enterMethod reentry complete id arguments) := by
  refine PacesIn.get.bind fun machine => ?_
  split
  · exact paces_fault _
  · split
    · exact paces_fault _
    · refine paces_resetExec.bind fun _ =>
        PacesIn.bind (.modify fun machine => shapes_modifyHeap ?_) fun _ =>
        (paces_catching (paces_stageCall paces completes id arguments)).bind fun result =>
        PacesIn.bind (.modify fun machine => shapes_modifyHeap ?_) fun _ => ?_
      · exact .foldl Heap.pin .pin _ _
      · exact .foldl Heap.unpin .unpin _ _
      · split
        · exact .pure _
        · exact .throw _

end

end Host

/-- The calls that natives may make keep objects in shape, however deep they nest. -/
theorem Reentry.paces_ofDepth (fuel depth : Nat) : (Reentry.ofDepth fuel depth).Paces := by
  induction depth with
  | zero => exact ⟨fun _ _ => .throw _, .throw _⟩
  | succ depth ih =>
      have completes := Host.paces_runToCompletion ih fuel
      exact ⟨fun id arguments => Host.paces_enterMethod ih completes id arguments, completes⟩

theorem Bounds.paces_reentry (bounds : Bounds) : bounds.reentry.Paces :=
  Reentry.paces_ofDepth bounds.slices bounds.nesting

end Jvm

/-!
## The host keeps objects in shape

A host calls methods, drives executions, makes objects, defines classes, binds natives,
sets breakpoints and collects. Whatever it asks of a machine goes along changes that keep
objects in shape, so what such changes keep is kept along every run.
-/

namespace Jvm

open Machine

variable {scope : Scope}

namespace Host

/-! ## Calls -/

theorem paces_invoke (bounds : Bounds) (method : MethodId) (arguments : List Value) :
    Paces (invoke bounds method arguments) := by
  have completes := paces_runToCompletion bounds.paces_reentry bounds.slices
  refine (paces_enterMethod bounds.paces_reentry completes method arguments).bind fun entered => ?_
  split
  · exact .pure _
  · exact completes

theorem paces_invokeStatic (bounds : Bounds) (className name descriptor : String)
    (arguments : List Value) : Paces (invokeStatic bounds className name descriptor arguments) :=
  (paces_findStatic _ _ _).bind fun method => paces_invoke bounds method arguments

theorem paces_invokeVirtual (bounds : Bounds) (receiver : Ref) (name descriptor : String)
    (arguments : List Value) : Paces (invokeVirtual bounds receiver name descriptor arguments) := by
  refine PacesIn.get.bind fun machine => ?_
  split
  · exact paces_fault _
  · next cls _ =>
      refine (paces_findMethod cls _ _).bind fun resolved => PacesIn.get_bind fun machine => ?_
      dsimp only
      split
      · exact paces_fault _ machine
      · exact (PacesIn.set (shapes_resolveVirtual cls resolved)).bind fun _ _ _ _ =>
          paces_invoke bounds _ _ _

theorem paces_prepareExecution (bounds : Bounds) (className name descriptor : String)
    (arguments : List Value) :
    Paces (prepareExecution bounds className name descriptor arguments) :=
  (paces_findStatic _ _ _).bind fun method => bounds.paces_reentry.prepare method arguments

theorem paces_slice (bounds : Bounds) (id : ExecId) : Paces (slice bounds id) :=
  paces_runParkedSlice bounds.paces_reentry id

theorem paces_drive (bounds : Bounds) (id : ExecId) (more : Nat) :
    Paces (drive bounds id more) := by
  induction more with
  | zero => exact (paces_slice bounds id).bind fun _ => .pure _
  | succ more ih =>
      refine (paces_slice bounds id).bind fun outcome => ?_
      split
      · exact ih.bind fun _ => .pure _
      · exact ih.bind fun _ => .pure _
      · exact .pure _

/-! ## Objects and classes -/

theorem paces_newString (text : String) : PacesIn scope (newString text) :=
  paces_ofGuest (Guest.paces_newString text)

theorem paces_newIntArray (values : Array Int32) : PacesIn scope (newIntArray values) :=
  (paces_load _).bind fun _ => paces_ofGuest ((Guest.paces_newZeroArray _ _).bind fun array =>
    PacesIn.bind (.modify fun _ => shapes_modifyHeap (.modifyArray _ array
      (fun data => data.byteSize_copyFrom? 0 (.ints values) 0 values.size)
      fun data => data.kind_copyFrom? 0 (.ints values) 0 values.size)) fun _ => .pure _)

theorem paces_storeStrings (array : Ref) (index : Nat) (texts : List String) :
    PacesIn scope (storeStrings array index texts) := by
  induction texts generalizing index with
  | nil => exact .pure _
  | cons text rest ih =>
      exact (Guest.paces_newString text).bind fun _ =>
        (Guest.paces_setElement array index _).bind fun _ => ih _

theorem paces_newStringArray (texts : List String) : PacesIn scope (newStringArray texts) :=
  (paces_load _).bind fun _ => paces_ofGuest ((Guest.paces_newZeroArray _ _).bind fun array =>
    (paces_storeStrings array 0 texts).bind fun _ => .pure _)

theorem paces_defineClass (bytes : Array UInt8) : PacesIn scope (defineClass bytes) :=
  paces_linking fun _ => shapes_defineClass bytes

theorem paces_getStatic (bounds : Bounds) (className name : String) :
    Paces (getStatic bounds className name) := by
  refine (paces_load className).bind fun id =>
    (paces_initializeClass (paces_runToCompletion bounds.paces_reentry bounds.slices) id).bind
      fun _ => PacesIn.get.bind fun machine => ?_
  split
  · exact paces_fault _
  · split
    · exact paces_fault _
    · exact .pure _

theorem paces_registerNative (className name descriptor : String) (native : Native) :
    PacesIn scope (registerNative className name descriptor native) := by
  have inserts : ∀ replaced : Bool, PacesIn scope (do
      modify fun machine =>
        { machine with natives := machine.natives.insert className name descriptor native }
      pure replaced : Host Bool) :=
    fun replaced => PacesIn.bind
      (.modify fun _ => .single (.aside ⟨⟨rfl, rfl, rfl⟩, rfl⟩ rfl rfl rfl rfl)) fun _ => .pure _
  refine PacesIn.get.bind fun machine => ?_
  dsimp only
  split
  · exact PacesIn.bind (.modify fun machine => machine.shapes_modifyMethod _ fun _ => rfl)
      fun _ => inserts _
  · exact inserts _

/-! ## Programs -/

theorem paces_run (bounds : Bounds) (className : String) (arguments : List String) :
    Paces (run bounds className arguments) := by
  refine (paces_findStatic _ _ _).bind fun method => (paces_newStringArray arguments).bind fun array =>
    PacesIn.bind (.modify fun _ => shapes_modifyHeap (.pin _ _)) fun _ =>
    (paces_catching (paces_invoke bounds method _)).bind fun result =>
    PacesIn.bind (.modify fun _ => shapes_modifyHeap (.unpin _ _)) fun _ =>
    (paces_catching (paces_joinThreads bounds.paces_reentry bounds.slices)).bind fun joined => ?_
  split
  · exact .throw _
  · split
    · exact .throw _
    · exact .pure _

theorem paces_driveThreads (bounds : Bounds) (ids : List ExecId) :
    Paces (driveThreads bounds ids) := by
  induction ids with
  | nil => exact .pure _
  | cons id rest ih =>
      have drives : ∀ goesOn : Bool, Paces (do
          let others ← driveThreads bounds rest
          pure (if goesOn then id :: others else others) : Host (List ExecId)) :=
        fun goesOn => ih.bind fun _ => .pure _
      refine (paces_catching (paces_slice bounds id)).bind fun ended => ?_
      dsimp only
      split
      · exact (PacesIn.pure _).bind drives
      · exact (PacesIn.throw _).bind drives
      · exact (PacesIn.pure _).bind drives
      · exact PacesIn.bind (.modify fun machine => shapes_reportDeath machine id _) fun _ =>
          (PacesIn.pure _).bind drives

theorem paces_takeThreads : Paces takeThreads :=
  .modifyGet fun _ => .single (.frames trivial rfl rfl rfl rfl)

theorem paces_waitForWake (ids : List ExecId) : Paces (waitForWake ids) := by
  refine .modify fun machine => ?_
  split
  · exact .single (.frames trivial rfl rfl rfl rfl)
  · exact .refl

theorem paces_finishThreads (bounds : Bounds) (fuel : Nat) (threads : List ExecId) :
    Paces (finishThreads bounds fuel threads) := by
  induction fuel generalizing threads with
  | zero => exact .throw _
  | succ fuel ih =>
      rw [finishThreads]
      split
      · exact (paces_driveThreads bounds threads).bind fun left => paces_takeThreads.bind fun _ =>
          (paces_waitForWake _).bind fun _ => ih _
      · exact .pure _

theorem paces_driveExecution (bounds : Bounds) (id : ExecId) (fuel : Nat) (threads : List ExecId) :
    Paces (driveExecution bounds id fuel threads) := by
  induction fuel generalizing threads with
  | zero => exact .throw _
  | succ fuel ih =>
      refine (paces_catching (paces_slice bounds id)).bind fun outcome =>
        paces_takeThreads.bind fun started => ?_
      dsimp only
      split
      · exact .pure _
      · exact .pure _
      · exact .throw _
      · exact (paces_driveThreads bounds _).bind fun left => paces_takeThreads.bind fun _ =>
          (paces_waitForWake _).bind fun _ => ih _

theorem paces_invokeShared (bounds : Bounds) (className name descriptor : String)
    (arguments : List Value) : Paces (invokeShared bounds className name descriptor arguments) := by
  refine (paces_prepareExecution bounds className name descriptor arguments).bind fun id =>
    (paces_driveExecution bounds id bounds.slices []).bind fun (ended, threads) =>
    (paces_finishThreads bounds bounds.slices threads).bind fun _ => ?_
  split
  · exact .pure _
  · exact .throw _

/-! ## Breakpoints -/

theorem paces_findCode (className name descriptor : String) :
    Paces (findCode className name descriptor) := by
  refine (paces_load className).bind fun owner => PacesIn.get.bind fun machine => ?_
  split
  · exact .throw _
  · split
    · exact paces_fault _
    · exact .pure _

end Host

namespace Machine

variable (machine : Machine)

theorem shapes_patch (id : MethodId) (pc : UInt32) (byte : UInt8) :
    Shapes machine (machine.patch id pc byte) :=
  machine.shapes_modifyMethod id fun _ => rfl

theorem shapes_clearBreakpoint (id : MethodId) (pc : UInt32) :
    Shapes machine (machine.clearBreakpoint id pc).2 := by
  rw [clearBreakpoint]
  split
  · exact .refl
  · exact (machine.shapes_patch id pc _).tail (.frames trivial rfl rfl rfl rfl)

theorem shapes_clearBreakpoints : Shapes machine machine.clearBreakpoints := by
  have clears : ∀ (places : List (MethodId × UInt32)) (start : Machine), Shapes start
      (places.foldl (fun machine place => (machine.clearBreakpoint place.1 place.2).2) start) := by
    intro places
    induction places with
    | nil => exact fun _ => .refl
    | cons place rest ih =>
        exact fun start => (start.shapes_clearBreakpoint place.1 place.2).trans (ih _)
  exact clears _ _

end Machine

namespace Host

theorem paces_setBreakpoint (className name descriptor : String) (pc : UInt32) :
    Paces (setBreakpoint className name descriptor pc) := by
  refine (paces_findCode _ _ _).bind fun id => PacesIn.get.bind fun machine => ?_
  dsimp only
  split
  · exact .pure _
  · split
    · exact paces_fault _
    · refine PacesIn.bind (.modify fun machine => ?_) fun _ => .pure _
      exact (machine.shapes_patch id pc _).tail (.frames trivial rfl rfl rfl rfl)

theorem paces_setLineBreakpoint (className name descriptor : String) (line : UInt32) :
    Paces (setLineBreakpoint className name descriptor line) := by
  refine (paces_findCode _ _ _).bind fun id => PacesIn.get.bind fun machine => ?_
  split
  · exact paces_fault _
  · exact paces_setBreakpoint _ _ _ _

end Host

end Jvm
