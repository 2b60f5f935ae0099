import Jvm.Machine.Schedule
import Jvm.Proofs.Effects
import Jvm.Proofs.Debugging.Stepping

/-!
# A debugged execution beside the plain one

Between the instructions of a debugged execution the plain one has run the same, or it has
yet to look for the handler of an exception that the debugger keeps back. Where the debugger
stops, the plain execution has nothing to do, and it stops at most twice for an instruction:
before it, and with what it threw. When the execution goes on after a throw, the objects of
the last instruction are no longer kept, but the search for a handler does not look at them.
-/

namespace Jvm

open Machine

/-- A machine in which no object is kept for the running instruction. -/
def Machine.unprotected (machine : Machine) : Machine := machine.modifyHeap Heap.clearPending

/-- Whether a step does the same whatever objects are kept for the running instruction. -/
abbrev Heedless {ε α : Type} (step : EStateM ε Machine α) : Prop :=
  Overlooks (fun _ => True) Machine.unprotected step

namespace Machine

variable (machine : Machine)

theorem setMonitor_unprotected (monitor : Monitor) (lock : Lock) :
    machine.unprotected.setMonitor monitor lock = (machine.setMonitor monitor lock).unprotected := by
  cases lock <;> rfl

theorem exitLock_unprotected (lock : Lock) : machine.unprotected.exitLock lock =
    ((machine.exitLock lock).1, (machine.exitLock lock).2.unprotected) := by
  have monitors : machine.unprotected.monitor? lock = machine.monitor? lock := by
    cases lock <;> rfl
  rw [exitLock, exitLock, monitors, show machine.unprotected.exec = machine.exec from rfl]
  cases (machine.monitor? lock).bind fun monitor => monitor.exit machine.exec.id with
  | none => rfl
  | some monitor => simp only [setMonitor_unprotected]

theorem leaveInitializer_unprotected (id : MethodId) (succeeded : Bool) :
    machine.unprotected.leaveInitializer id succeeded =
      (machine.leaveInitializer id succeeded).unprotected := by
  rw [leaveInitializer, leaveInitializer, show machine.unprotected.method id = machine.method id
    from rfl]
  split <;> rfl

theorem abandonFrame_unprotected (id : MethodId) :
    machine.unprotected.abandonFrame id = (machine.abandonFrame id).unprotected := by
  rw [abandonFrame, abandonFrame,
    show machine.unprotected.frameLock? id = machine.frameLock? id from rfl]
  split <;> simp only [exitLock_unprotected, leaveInitializer_unprotected] <;> rfl

end Machine

namespace Guest

theorem heedless_remember (id : ClassId) (index : UInt16) (constant : Constant) :
    Heedless (remember id index constant) :=
  .modify (fun _ _ => trivial) fun _ _ => rfl

theorem heedless_linkClass (id : ClassId) (index : UInt16) : Heedless (linkClass id index) := by
  refine .get_bind (fun _ _ => rfl) fun machine _ => ?_
  dsimp only
  split
  · exact .pure _
  · exact .pure _
  · split
    · exact .pure _
    · refine Overlooks.bind (fun _ _ => Ends.of_ok rfl ⟨trivial, rfl⟩) fun loaded => ?_
      split
      · exact .pure _
      · exact (heedless_remember _ _ _).bind fun _ => .pure _
  · exact .pure _

theorem heedless_findHandlerIn (owner : ClassId) (pc : UInt32) (thrown : ClassId)
    (handlers : List Handler) : Heedless (findHandlerIn owner pc thrown handlers) := by
  induction handlers with
  | nil => exact .pure _
  | cons handler rest ih =>
      rw [findHandlerIn]
      split
      · exact ih
      · split
        · exact .pure _
        · refine (heedless_linkClass owner _).bind fun loaded => ?_
          split
          · refine .get_bind (fun _ _ => rfl) fun machine _ => ?_
            split
            · exact .pure _
            · exact ih
          · exact ih

theorem heedless_findHandler (id : MethodId) (pc : UInt32) (thrown : ClassId) :
    Heedless (findHandler id pc thrown) := by
  refine .get_bind (fun _ _ => rfl) fun machine _ => ?_
  split
  · exact heedless_findHandlerIn _ _ _ _
  · exact .pure _

theorem heedless_unwindFrames (ref : Ref) (thrown : ClassId) (fuel : Nat)
    (trace : List (MethodId × UInt32)) : Heedless (unwindFrames ref thrown fuel trace) := by
  induction fuel generalizing trace with
  | zero => exact .throw _
  | succ fuel ih =>
      refine .get_bind (fun _ _ => rfl) fun machine _ => ?_
      split
      · exact Overlooks.bind (.modify (fun _ _ => trivial) fun _ _ => rfl) fun _ => .throw _
      · refine (heedless_findHandler _ _ _).bind fun found => ?_
        split
        · exact .modify (fun _ _ => trivial) fun _ _ => rfl
        · exact Overlooks.bind (.modify (fun _ _ => trivial)
            fun machine _ => machine.abandonFrame_unprotected _) fun _ => ih _

theorem heedless_unwind (ref : Ref) : Heedless (unwind ref) := by
  refine .get_bind (fun _ _ => rfl) fun machine _ => ?_
  split
  · exact .throw _
  · exact heedless_unwindFrames _ _ _ _

end Guest

/-- A search for a handler that begins with another instruction ends the same. -/
theorem Host.heedless_unwind (ref : Ref) : Heedless (Host.unwind ref) := by
  intro machine _
  cases ran : Guest.unwind ref machine with
  | ok value after =>
      have too := ((Guest.heedless_unwind ref).eq_of_ok trivial ran).2
      exact Ends.of_ok (by rw [unwind, ofGuest, ran]) ⟨trivial, by rw [unwind, ofGuest, too]⟩
  | error thrown after =>
      have too := ((Guest.heedless_unwind ref).eq_of_error trivial ran).2
      cases thrown with
      | fatal error =>
          exact Ends.of_error (by rw [unwind, ofGuest, ran]) ⟨trivial, by rw [unwind, ofGuest, too]⟩
      | exception ref =>
          exact Ends.of_error (by rw [unwind, ofGuest, ran])
            ⟨trivial, by rw [unwind, ofGuest, too]; rfl⟩

namespace Machine

/-- The machine that the next instruction of a slice starts from. -/
def ready (machine : Machine) : Machine := (Host.beginSlice machine).unprotected

/-- A machine in which no exception is kept back. -/
def released (machine : Machine) : Machine :=
  machine.modifyExec fun exec => { exec with pendingException := none }

/-- Whether a plain machine is the shadow of a debugged one, but for what is kept for the
running instruction. -/
def Agrees (breakpoints : Breakpoints) (debugged plain : Machine) : Prop :=
  Shadows breakpoints debugged.unprotected plain.unprotected

/-- How often the debugger may stop before the instruction that follows has had its effect:
before it, and before an exception of it is thrown. -/
def stopsLeft (machine : Machine) : Nat :=
  if machine.exec.pendingException.isSome then 0
  else if machine.exec.skipBreakpoint = machine.exec.place? then 1
  else 2

variable {breakpoints : Breakpoints} {debugged plain : Machine}

/-- A machine whose request to end the slice is granted. -/
def granted (machine : Machine) : Machine := { machine with yieldRequested := false }

/-- A machine whose execution has been waited for, if it sleeps. -/
def waitedFor (machine : Machine) : Machine := machine.exec.wakeAt.elim machine machine.sleepUntil

theorem Shadows.waitedFor (shadows : Shadows breakpoints debugged plain) :
    Shadows breakpoints debugged.waitedFor plain.waitedFor := by
  have same := shadows.isSome_wakeAt
  rw [Machine.waitedFor, Machine.waitedFor]
  cases asleep : debugged.exec.wakeAt with
  | none =>
      have awake : plain.exec.wakeAt = none :=
        Option.isSome_eq_false_iff.mp (same.symm.trans (congrArg Option.isSome asleep))
          |> Option.isNone_iff_eq_none.mp
      rw [awake]
      exact shadows
  | some instant =>
      rw [asleep] at same
      obtain ⟨other, sleeps⟩ := Option.isSome_iff_exists.mp same.symm
      rw [sleeps]
      exact shadows.sleepUntil instant other

theorem Shadows.agrees (shadows : Shadows breakpoints debugged plain) :
    Agrees breakpoints debugged plain :=
  shadows.modifyHeap _

theorem Agrees.ready (agrees : Agrees breakpoints debugged plain) :
    Shadows breakpoints debugged.ready plain.ready :=
  agrees.beginSlice

theorem beginSlice_of_unasked {machine : Machine} (unasked : machine.Unasked) :
    Host.beginSlice machine = machine := by
  have exec : ({ machine.exec with wakeAt := none } : Execution) = machine.exec := by
    rw [← unasked.2]
  change { machine with exec := ({ machine.exec with wakeAt := none } : Execution)
                        yieldRequested := false } = machine
  rw [exec, ← unasked.1]

theorem Agrees.unasked (agrees : Agrees breakpoints debugged plain) (unasked : debugged.Unasked) :
    plain.Unasked :=
  ⟨(Shadows.yieldRequested_eq agrees).symm.trans unasked.1,
    Option.not_isSome_iff_eq_none.mp fun asleep => by
      have awake := (Shadows.isSome_wakeAt agrees).trans asleep
      rw [show debugged.unprotected.exec.wakeAt = none from unasked.2] at awake
      cases awake⟩

theorem Agrees.isIdle_eq (agrees : Agrees breakpoints debugged plain) :
    debugged.exec.isIdle = plain.exec.isIdle := by
  have same : debugged.unprotected.exec.isIdle = plain.unprotected.exec.isIdle :=
    Shadows.isIdle_eq agrees
  exact same

/-- The machine that is left when the exception is released again. -/
theorem released_withheld (machine : Machine) (debugger : Debugger) (ref : Ref)
    (unasked : machine.Unasked) (clear : machine.exec.pendingException = none) :
    (machine.withheld debugger ref).ready.released =
      ({ machine with debugger } : Machine).unprotected := by
  have exec : ({ machine.exec with wakeAt := none, pendingException := none } : Execution) =
      machine.exec := by
    rw [← unasked.2, ← clear]
  change { machine.modifyHeap Heap.clearPending with
    debugger
    exec := ({ machine.exec with wakeAt := none, pendingException := none } : Execution)
    yieldRequested := false } = _
  rw [exec, ← unasked.1]
  rfl

theorem stopOnThrow_of_detached {machine : Machine} (detached : machine.debuggerAttached = false)
    (ref : Ref) : machine.stopOnThrow ref = (false, machine) := by
  rw [stopOnThrow, detached, Bool.false_and, if_neg Bool.false_ne_true]

end Machine

namespace Host

variable {breakpoints : Breakpoints} {debugged plain : Machine} {reentry : Reentry}

/-! ## Single instructions -/

/-- Goes on throwing an object. -/
def unwindOn (ref : Ref) : Host (Option SliceOutcome) := do
  unwind ref
  pure none

theorem runStep_of_clear {machine : Machine} (clear : machine.exec.pendingException = none) :
    runStep reentry machine = (do afterStep (← attempt (Guest.step reentry))) machine.unprotected := by
  have same : machine.unprotected.exec.pendingException = none := clear
  rw [runStep, bind_of_ok (run_modify _ _), bind_of_ok (run_get _)]
  rw [show (machine.modifyHeap Heap.clearPending).exec.pendingException = none from same]
  rfl

theorem runStep_of_kept {machine : Machine} {ref : Ref}
    (kept : machine.exec.pendingException = some ref) :
    runStep reentry machine = unwindOn ref machine.unprotected.released := by
  have same : machine.unprotected.exec.pendingException = some ref := kept
  rw [runStep, bind_of_ok (run_modify _ _), bind_of_ok (run_get _)]
  rw [show (machine.modifyHeap Heap.clearPending).exec.pendingException = some ref from same]
  rfl

/-- An object is thrown on to the same handler of the plain machine, or to the host. -/
theorem ends_unwindOn (agrees : Agrees breakpoints debugged plain) (unasked : debugged.Unasked)
    (ref : Ref) : Ends (unwindOn ref) debugged
      (fun outcome after => outcome = none ∧
        (∃ left, unwindOn ref plain = .ok none left ∧ Agrees breakpoints after left) ∧
        after.setting = debugged.setting ∧ after.Unasked ∧ after.exec.isIdle = false)
      fun error after => (∃ left, unwindOn ref plain = .error error left ∧
        Agrees breakpoints after left) ∧ after.setting = debugged.setting := by
  have blind : ∀ veil : Veil, ¬veil.busy → Blind veil (unwind ref) :=
    fun veil free => blind_ofGuest (Guest.blind_unwind free ref)
  have shadowed := Guest.ends_of_blind_shadow blind agrees unasked
  have runs := ends_unwind_running ref debugged
  have heedless := heedless_unwind ref
  simp only [unwindOn, ends_bind, ends_pure]
  cases ran : unwind ref debugged with
  | ok value after =>
      obtain ⟨⟨left, leaves, plainRan⟩, calm⟩ :=
        ends_of_ok (heedless.eq_of_ok trivial ran).2 shadowed
      have running := ends_of_ok ran runs
      refine Ends.of_ok ran ⟨trivial, ?_, leaves.setting, calm, running⟩
      cases other : unwind ref plain with
      | ok value last =>
          cases plainRan.symm.trans (heedless.eq_of_ok trivial other).2
          exact ⟨last, bind_of_ok other, leaves.shadows⟩
      | error error last => cases plainRan.symm.trans (heedless.eq_of_error trivial other).2
  | error error after =>
      obtain ⟨⟨left, leaves, plainRan⟩, -⟩ :=
        ends_of_error (heedless.eq_of_error trivial ran).2 shadowed
      refine Ends.of_error ran ⟨?_, leaves.setting⟩
      cases other : unwind ref plain with
      | ok value last => cases plainRan.symm.trans (heedless.eq_of_ok trivial other).2
      | error raised last =>
          cases plainRan.symm.trans (heedless.eq_of_error trivial other).2
          exact ⟨last, by simp only [bind, EStateM.bind, other], leaves.shadows⟩

/-! ## Between instructions -/

/-- Whether an instruction of a plain run is one that breakpoints do not change: nothing has
asked the machine to end, nor does the instruction and then throw; it starts no thread, reads
no clock, and reads no byte under a breakpoint but its first. -/
structure Tame (reentry : Reentry) (breakpoints : Breakpoints) (machine : Machine) : Prop where
  alive : machine.terminated = false
  survives : ∀ {ref after}, Guest.step reentry machine.unprotected = .error (.exception ref) after →
    after.terminated = false
  timeless : machine.CallsOnly (·.isTimeless)
  unread : Guest.Unread reentry breakpoints machine.unprotected

/-- Whether an execution has something to run now. -/
structure Due (machine : Machine) : Prop where
  running : machine.exec.isIdle = false
  awake : machine.exec.wakeAt.filter (machine.now < ·) = none

/-- How a debugged machine stands to the plain one between two instructions. -/
inductive Linked (reentry : Reentry) (breakpoints : Breakpoints) (debugged plain : Machine) : Prop
  /-- Both go on at the same place. -/
  | level (shadows : Shadows breakpoints debugged.ready plain.ready)
  /-- The debugged one keeps back what the next instruction of the plain one throws. -/
  | withholds {ref : Ref} {thrown : Machine} (kept : debugged.exec.pendingException = some ref)
      (agrees : Agrees breakpoints debugged.ready.released thrown)
      (alive : thrown.terminated = false)
      (throws : runStep reentry (beginSlice plain) = unwindOn ref thrown)

/-- What a stop leaves: the plain machine has nothing to do, and fewer stops are left. -/
structure Stops (reentry : Reentry) (breakpoints : Breakpoints) (debugged after plain : Machine) :
    Prop where
  linked : ∀ debugger, Linked reentry breakpoints { after with debugger } plain
  due : Due after
  setting : after.setting = debugged.setting
  fewer : after.stopsLeft < debugged.stopsLeft

/-- How an instruction that runs in a debugged machine ends as in the plain one. -/
inductive Mirrors (reentry : Reentry) (breakpoints : Breakpoints) (debugged plain : Machine) :
    EStateM.Result Error Machine (Option SliceOutcome) → Prop
  | goesOn {after left : Machine} (ran : runStep reentry (beginSlice plain) = .ok none left)
      (agrees : Agrees breakpoints after left) (setting : after.setting = debugged.setting)
      (unasked : after.Unasked) (running : after.exec.isIdle = false) :
      Mirrors reentry breakpoints debugged plain (.ok none after)
  | pauses {after left later rest : Machine} {outcome other : SliceOutcome}
      (ran : runStep reentry (beginSlice plain) = .ok (some other) left)
      (unfinished : ∀ value, outcome ≠ .finished value ∧ other ≠ .finished value)
      (attends : ∀ commands, attend commands outcome after = (commands, later))
      (attendsPlain : ∀ commands, attend commands other left = (commands, rest))
      (agrees : Agrees breakpoints later rest) (setting : after.setting = debugged.setting)
      (same : later.setting = after.setting) (due : Due later) (duePlain : Due rest) :
      Mirrors reentry breakpoints debugged plain (.ok (some outcome) after)
  | returns {after left : Machine} {value : Value}
      (ran : runStep reentry (beginSlice plain) = .ok (some (.finished value)) left)
      (agrees : Agrees breakpoints after left) (setting : after.setting = debugged.setting) :
      Mirrors reentry breakpoints debugged plain (.ok (some (.finished value)) after)
  | fails {after left : Machine} {error : Error}
      (ran : runStep reentry (beginSlice plain) = .error error left)
      (agrees : Agrees breakpoints after left) (setting : after.setting = debugged.setting) :
      Mirrors reentry breakpoints debugged plain (.error error after)

/-- However an instruction of a debugged machine ends, it ends beside the plain one. -/
def Pairs (reentry : Reentry) (breakpoints : Breakpoints) (debugged plain : Machine)
    (ended : EStateM.Result Error Machine (Option SliceOutcome)) : Prop :=
  (∃ after, ended = .ok (some .suspended) after ∧
    Stops reentry breakpoints debugged after plain) ∨
  Mirrors reentry breakpoints debugged plain ended

/-- An object that is thrown on in both machines. -/
theorem mirrors_unwindOn {before thrown : Machine} {ref : Ref}
    (agrees : Agrees breakpoints before thrown) (unasked : before.Unasked)
    (setting : before.setting = debugged.setting)
    (throws : runStep reentry (beginSlice plain) = unwindOn ref thrown) :
    Mirrors reentry breakpoints debugged plain (unwindOn ref before) := by
  have ends := ends_unwindOn agrees unasked ref
  cases ran : unwindOn ref before with
  | ok outcome after =>
      obtain ⟨rfl, ⟨left, plainRan, agrees⟩, settled, calm, running⟩ := ends_of_ok ran ends
      exact .goesOn (throws.trans plainRan) agrees (settled.trans setting) calm running
  | error error after =>
      obtain ⟨⟨left, plainRan, agrees⟩, settled⟩ := ends_of_error ran ends
      exact .fails (throws.trans plainRan) agrees (settled.trans setting)

theorem setting_protectResult (machine : Machine) (value : Value) :
    (machine.protectResult value).setting = machine.setting := by
  rw [protectResult.eq_def]
  split <;> rfl

/-- An instruction that goes on is the last of its slice if it has asked for that. -/
theorem afterStep_next (machine : Machine) : afterStep (.ok .next) machine =
    if machine.yieldRequested then
      .ok (some (machine.exec.wakeAt.elim .yielded .sleeping)) machine.countStep.granted
    else .ok none machine.countStep := by
  have counts : (modify Machine.countStep : Host Unit) machine = .ok ⟨⟩ machine.countStep := rfl
  have looks : (get : Host Machine) machine.countStep = .ok machine.countStep machine.countStep := rfl
  rw [afterStep, bind_of_ok counts, bind_of_ok looks]
  cases asked : machine.yieldRequested with
  | false =>
      have stays : machine.countStep.yieldRequested = false := asked
      rw [stays]
      rfl
  | true =>
      have grants : (modify granted : Host Unit) machine.countStep =
        .ok ⟨⟩ machine.countStep.granted := rfl
      have sees : (get : Host Machine) machine.countStep.granted =
        .ok machine.countStep.granted machine.countStep.granted := rfl
      have ends : machine.countStep.yieldRequested = true := asked
      rw [if_pos ends, if_pos rfl]
      refine (bind_of_ok grants).trans ((bind_of_ok sees).trans ?_)
      rw [show machine.countStep.granted.exec = machine.exec from rfl]
      cases machine.exec.wakeAt <;> rfl

/-- An object that is thrown is kept back or thrown on. -/
theorem afterStep_exception (ref : Ref) (machine : Machine) :
    afterStep (.error (.exception ref)) machine =
      match machine.countStep.stopOnThrow ref with
      | (true, after) => .ok (some .suspended) after
      | (false, after) => unwindOn ref after := by
  have counts : (modify Machine.countStep : Host Unit) machine = .ok ⟨⟩ machine.countStep := rfl
  have asks : (modifyGet fun machine => machine.stopOnThrow ref : Host Bool) machine.countStep =
      .ok (machine.countStep.stopOnThrow ref).1 (machine.countStep.stopOnThrow ref).2 :=
    run_modifyGet _ _
  rw [afterStep, bind_of_ok counts]
  cases stops : machine.countStep.stopOnThrow ref with
  | mk stopped after =>
      rw [stops] at asks
      cases stopped <;> exact bind_of_ok asks

/-- What is attended to after a slice that ended on request. -/
theorem attend_granted (machine : Machine) (commands : Nat → Command) :
    attend commands (machine.exec.wakeAt.elim .yielded .sleeping) machine =
      (commands, machine.waitedFor) := by
  rw [waitedFor]
  cases machine.exec.wakeAt <;> rfl

theorem setting_waitedFor (machine : Machine) : machine.waitedFor.setting = machine.setting := by
  rw [waitedFor]
  cases machine.exec.wakeAt <;> rfl

/-- Once it is waited for, an execution is due. -/
theorem due_waitedFor {machine : Machine} (running : machine.exec.isIdle = false) :
    Due machine.waitedFor := by
  rw [waitedFor]
  cases asleep : machine.exec.wakeAt with
  | none => exact ⟨running, by rw [Option.elim, asleep]; rfl⟩
  | some instant =>
      refine ⟨running, ?_⟩
      have clock (elapsed slept wakeAt : Nat) :
          wakeAt ≤ elapsed + (slept + (wakeAt - (elapsed + slept))) := by omega
      have passed : ¬(machine.sleepUntil instant).now < instant := Nat.not_lt.mpr (clock _ _ _)
      change (machine.exec.wakeAt.filter ((machine.sleepUntil instant).now < ·)) = none
      rw [asleep, Option.filter_some, decide_eq_false passed]
      rfl

/-- An instruction that has run in both machines. -/
theorem mirrors_afterStep {after left : Machine} {ended : Step}
    (leaves : Guest.Leaves breakpoints debugged.ready after left) (goes : ended ≠ .suspended)
    (asks : after.AsksToSleep ∧ (ended = .next ∨ after.Unasked))
    (runs : (∀ value, ended ≠ .returned value) → after.exec.isIdle = false)
    (plainRan : runStep reentry (beginSlice plain) = afterStep (.ok ended) left) :
    Mirrors reentry breakpoints debugged plain (afterStep (.ok ended) after) := by
  obtain ⟨shadows, setting⟩ := leaves
  cases ended with
  | suspended => exact absurd rfl goes
  | blocked =>
      have unasked : after.Unasked := asks.2.resolve_left nofun
      have running := runs nofun
      refine .pauses plainRan (fun _ => ⟨nofun, nofun⟩) (fun _ => rfl) (fun _ => rfl)
        shadows.agrees setting rfl ⟨running, by rw [unasked.2]; rfl⟩ ⟨?_, ?_⟩
      · exact shadows.isIdle_eq.symm.trans running
      · rw [(shadows.agrees.unasked unasked).2]
        rfl
  | returned value =>
      exact .returns plainRan (shadows.countStep.protectResult value).agrees
        ((setting_protectResult _ _).trans setting)
  | next =>
      have running := runs nofun
      rw [afterStep_next, ← shadows.yieldRequested_eq] at plainRan
      rw [afterStep_next]
      cases asked : after.yieldRequested with
      | false =>
          rw [asked] at plainRan
          exact .goesOn plainRan shadows.countStep.agrees setting ⟨asked, asks.1 asked⟩ running
      | true =>
          rw [asked] at plainRan
          refine .pauses plainRan (fun value => ⟨?_, ?_⟩) (attend_granted after.countStep.granted)
            (attend_granted left.countStep.granted) ?_ setting
            (setting_waitedFor after.countStep.granted) (due_waitedFor running)
            (due_waitedFor (shadows.isIdle_eq.symm.trans running))
          · cases after.exec.wakeAt <;> exact nofun
          · cases left.exec.wakeAt <;> exact nofun
          · exact shadows.countStep.unrequested.waitedFor.agrees

/-- An instruction that has thrown in both machines. -/
theorem pairs_thrown {after left : Machine} {raised : Throw}
    (leaves : Guest.Leaves breakpoints debugged.ready after left) (unasked : after.Unasked)
    (plainRan : runStep reentry (beginSlice plain) = afterStep (.error raised) left)
    (survives : ∀ ref, raised = .exception ref → left.terminated = false)
    (first : 0 < debugged.stopsLeft) :
    Pairs reentry breakpoints debugged plain (afterStep (.error raised) after) := by
  obtain ⟨shadows, setting⟩ := leaves
  have counted := shadows.countStep
  cases raised with
  | fatal error =>
      have blind : ∀ veil : Veil, ¬veil.busy →
          Blind veil (modify abandonExecution : Host Unit) := fun veil free =>
        .modify (fun _ covers => covers_abandonExecution free covers)
          fun machine _ => machine.abandonExecution_veil
      have calm : after.countStep.Unasked := unasked
      obtain ⟨⟨last, gone, ran⟩, -⟩ :=
        ends_modify.mp (Guest.ends_of_blind_shadow blind counted calm)
      cases ran
      exact .inr (.fails plainRan gone.shadows.agrees (gone.setting.trans setting))
  | exception ref =>
      rw [afterStep_exception, stopOnThrow_of_detached counted.detached] at plainRan
      rw [afterStep_exception]
      have alive : left.countStep.terminated = false := survives ref rfl
      obtain ⟨debugger, -, ⟨stops, _, _, _, current, -⟩ | passes⟩ :=
        after.countStep.stopOnThrow_cases ref
      · have running : after.countStep.exec.isIdle = false := by
          rw [Execution.isIdle, current]
          rfl
        rw [stops]
        refine .inl ⟨_, rfl, fun other => .withholds rfl ?_ alive plainRan, ⟨running, ?_⟩, setting,
          first⟩
        · have same : (after.countStep.withheld other ref).ready.released = _ :=
            after.countStep.released_withheld other ref unasked counted.clear
          change Agrees breakpoints (after.countStep.withheld other ref).ready.released _
          rw [same]
          exact (counted.withDebugger other).agrees
        · have awake : (after.countStep.withheld debugger ref).exec.wakeAt = none := unasked.2
          rw [awake]
          rfl
      · rw [passes]
        exact .inr
          (mirrors_unwindOn (counted.withDebugger debugger).agrees unasked setting plainRan)

/-- An instruction that the debugger stops before has yet to run, and it is marked. -/
theorem stops_halts {after : Machine}
    (halts : Guest.Halts breakpoints debugged.ready after plain.ready)
    (clear : debugged.exec.pendingException = none) :
    Stops reentry breakpoints debugged after.countStep plain := by
  have awake : after.countStep.exec.wakeAt = none := halts.unasked.2
  refine ⟨fun debugger => .level ?_, ⟨halts.running, by rw [awake]; rfl⟩, halts.setting, ?_⟩
  · exact (halts.shadows.countStep_left.withDebugger debugger).agrees.ready
  · have unmarked : debugged.exec.skipBreakpoint ≠ debugged.exec.place? := halts.unmarked
    have before : debugged.stopsLeft = 2 := by
      rw [stopsLeft, clear, Option.isSome_none, if_neg Bool.false_ne_true, if_neg unmarked]
    have left : after.stopsLeft = 1 := by
      rw [stopsLeft, halts.clear, Option.isSome_none, if_neg Bool.false_ne_true,
        if_pos halts.marked]
    change after.stopsLeft < _
    rw [before, left]
    exact Nat.one_lt_two

/-- An instruction of a debugged machine is stopped, or it ends as in the plain one. -/
theorem Linked.pairs (linked : Linked reentry breakpoints debugged plain)
    (refuses : reentry.Refuses) (due : Due debugged)
    (tame : Tame reentry breakpoints (beginSlice plain)) :
    Pairs reentry breakpoints debugged plain (runStep reentry (beginSlice debugged)) := by
  cases linked with
  | @withholds ref thrown kept agrees alive throws =>
      have keeps : (beginSlice debugged).exec.pendingException = some ref := kept
      rw [runStep_of_kept keeps]
      exact .inr (mirrors_unwindOn agrees ⟨rfl, rfl⟩ rfl throws)
  | level shadows =>
      have clear : (beginSlice debugged).exec.pendingException = none := shadows.clear
      have plainClear : (beginSlice plain).exec.pendingException = none :=
        shadows.pendingException_eq
      have first : 0 < debugged.stopsLeft := by
        have kept : debugged.exec.pendingException = none := clear
        rw [stopsLeft, kept, Option.isSome_none, if_neg Bool.false_ne_true]
        split <;> decide
      have plainRan : runStep reentry (beginSlice plain) = _ := runStep_of_clear plainClear
      rw [runStep_of_clear clear]
      have stepped := Guest.ends_step_shadow shadows refuses ⟨rfl, rfl⟩ due.running
        (tame.timeless plainClear) tame.unread
      change Pairs _ _ _ _ ((attempt (Guest.step reentry) >>= afterStep) debugged.ready)
      change _ = (attempt (Guest.step reentry) >>= afterStep) plain.ready at plainRan
      cases ran : Guest.step reentry debugged.ready with
      | ok ended after =>
          have attempted : attempt (Guest.step reentry) debugged.ready = .ok (.ok ended) after := by
            rw [attempt, ran]
          rw [bind_of_ok attempted]
          obtain ⟨rfl, halts⟩ | ⟨⟨left, leaves, stepped⟩, goes, asks, runs⟩ := ends_of_ok ran stepped
          · exact .inl ⟨_, rfl, stops_halts halts clear⟩
          · have tried : attempt (Guest.step reentry) plain.ready = .ok (.ok ended) left := by
              rw [attempt, stepped]
            rw [bind_of_ok tried] at plainRan
            exact .inr (mirrors_afterStep leaves goes asks runs plainRan)
      | error raised after =>
          have attempted : attempt (Guest.step reentry) debugged.ready =
            .ok (.error raised) after := by rw [attempt, ran]
          rw [bind_of_ok attempted]
          obtain ⟨⟨left, leaves, stepped⟩, unasked⟩ := ends_of_error ran stepped
          have tried : attempt (Guest.step reentry) plain.ready = .ok (.error raised) left := by
            rw [attempt, stepped]
          rw [bind_of_ok tried] at plainRan
          refine pairs_thrown leaves unasked plainRan (fun ref thrown => ?_) first
          subst thrown
          exact tame.survives stepped

end Host

end Jvm
