import Jvm.Proofs.Machine.Invocation
import Jvm.Proofs.Veiling.Steps

/-!
# What is run moves a machine

Instructions, slices and calls are put together from four things: what cannot look behind a
veil, small changes of the running execution, stops that the debugger notes, and the calls
that natives make. So a relation along which these move a machine is one along which all that
is run moves it.
-/

namespace Jvm

open Machine

/-! ## The debugger meanwhile -/

/-- Whether a stop is one before an instruction, and not one at an exception. -/
def StopReason.precedes : StopReason → Bool
  | .requested | .breakpoint | .step => true
  | .exception _ _ => false

namespace Debugger

/-- Whether instructions ask exactly while a stop is requested or a step is outstanding. -/
def Exact (debugger : Debugger) : Prop :=
  debugger.armed = (debugger.stopRequested || debugger.step.isSome)

theorem exact_rearm (debugger : Debugger) : debugger.rearm.Exact := rfl

theorem rearm_of_exact {debugger : Debugger} (exact : debugger.Exact) :
    debugger.rearm = debugger := by
  rw [rearm, ← exact]

/-- How a debugger changes while it gets no command: what is outstanding stays so until
something is stopped, and what is stopped stays stopped. -/
structure Keeps (before after : Debugger) : Prop where
  exact : before.Exact → after.Exact
  stopped : before.isStopped = true → after = before
  outstanding : before.Exact → after.isStopped = false → after = before

namespace Keeps

variable {first second third : Debugger}

theorem refl (debugger : Debugger) : debugger.Keeps debugger :=
  ⟨id, fun _ => rfl, fun _ _ => rfl⟩

theorem trans (left : first.Keeps second) (right : second.Keeps third) : first.Keeps third where
  exact exact := right.exact (left.exact exact)
  stopped stopped := by
    have same := left.stopped stopped
    subst same
    exact right.stopped stopped
  outstanding exact running := by
    have late := right.outstanding (left.exact exact) running
    subst late
    exact left.outstanding exact running

end Keeps

theorem keeps_report (debugger : Debugger) (event : StopEvent) :
    debugger.Keeps (debugger.report event).2 := by
  rw [report]
  split
  · exact .refl debugger
  next running => exact ⟨id, fun stopped => absurd stopped running, nofun⟩

theorem isStopped_of_eq {debugger : Debugger} {event : StopEvent}
    (stopped : debugger.stopped = some event) : debugger.isStopped = true := by
  rw [isStopped, stopped]
  rfl

theorem stopped_of_reported {debugger : Debugger} {event : StopEvent}
    (reported : (debugger.report event).1 = true) :
    debugger.isStopped = false ∧ (debugger.report event).2.stopped = some event := by
  rw [report] at reported ⊢
  split at reported
  · exact absurd reported Bool.false_ne_true
  next running => exact ⟨Bool.eq_false_iff.mpr running, by rw [if_neg running]⟩

/-- A debugger that asks anew whether it is armed. -/
theorem keeps_rearm {debugger : Debugger} (running : ¬debugger.isStopped = true) :
    debugger.Keeps debugger.rearm :=
  ⟨fun _ => debugger.exact_rearm, fun stopped => absurd stopped running,
    fun exact _ => rearm_of_exact exact⟩

variable {debugger asked : Debugger} {exec : ExecId} {place : StepPlace}

/-- Letting an instruction go on changes nothing that is outstanding. -/
theorem keeps_of_passes (passes : debugger.shouldStop exec place = (none, asked)) :
    debugger.Keeps asked := by
  rw [shouldStop] at passes
  split at passes
  · cases passes
    exact .refl debugger
  next running =>
      split at passes
      · cases passes
      · split at passes
        · split at passes
          · cases passes
          · cases passes
            exact keeps_rearm running
        · cases passes
          exact keeps_rearm running

/-- A stop takes what was outstanding, and is reported. -/
theorem keeps_of_stops {reason : StopReason}
    (stops : debugger.shouldStop exec place = (some reason, asked)) (event : StopEvent) :
    (debugger.Keeps (asked.report event).2 ∧ (asked.report event).1 = true) ∧
      reason.precedes = true := by
  have reports : ∀ quiet : Debugger, ¬debugger.isStopped = true → quiet.stopped = debugger.stopped →
      debugger.Keeps (quiet.rearm.report event).2 ∧ (quiet.rearm.report event).1 = true := by
    intro quiet running same
    have free : ¬quiet.rearm.isStopped = true := by
      rw [isStopped, rearm, same]
      exact running
    rw [report, if_neg free]
    exact ⟨⟨fun _ => quiet.exact_rearm, fun stopped => absurd stopped running, nofun⟩, rfl⟩
  rw [shouldStop] at stops
  split at stops
  · cases stops
  next running =>
      split at stops
      · cases stops
        exact ⟨reports _ running rfl, rfl⟩
      · split at stops
        · split at stops
          · cases stops
            exact ⟨reports _ running rfl, rfl⟩
          · cases stops
        · cases stops

end Debugger

namespace Machine

/-- A machine with another debugger and with another mark of the instruction to run next. -/
def marked (machine : Machine) (debugger : Debugger) (mark : Option (MethodId × UInt32)) :
    Machine :=
  { machine.modifyExec fun exec => { exec with skipBreakpoint := mark } with debugger }

/-- A machine with another debugger, which keeps an exception back. -/
def withheld (machine : Machine) (debugger : Debugger) (ref : Ref) : Machine :=
  { machine with debugger }.modifyExec fun exec => { exec with pendingException := some ref }

/-- A report of a stop changes the debugger, and a mark is set if it is taken. -/
theorem stopBefore_cases (machine : Machine) (reason : StopReason) (id : MethodId) (pc : UInt32) :
    ∃ debugger, machine.debugger.Keeps debugger ∧
      (machine.stopBefore reason id pc = (true, machine.marked debugger (some (id, pc))) ∧
          debugger.stopped = some (machine.stopAt reason id pc) ∨
        machine.stopBefore reason id pc =
          (false, machine.marked debugger machine.exec.skipBreakpoint)) := by
  have keeps := machine.debugger.keeps_report (machine.stopAt reason id pc)
  have stops : (machine.debugger.report (machine.stopAt reason id pc)).1 = true → _ :=
    Debugger.stopped_of_reported
  rw [stopBefore, reportStop]
  generalize machine.debugger.report (machine.stopAt reason id pc) = report at keeps stops
  obtain ⟨reported, debugger⟩ := report
  refine ⟨debugger, keeps, ?_⟩
  cases reported with
  | true => exact .inl ⟨rfl, (stops rfl).2⟩
  | false => exact .inr rfl

theorem checkStop_cases (machine : Machine) (id : MethodId) (pc : UInt32) :
    ∃ debugger, machine.debugger.Keeps debugger ∧
      (machine.checkStop id pc = (true, machine.marked debugger (some (id, pc))) ∧
          (∃ reason : StopReason, reason.precedes = true ∧
            debugger.stopped = some (machine.stopAt reason id pc)) ∨
        machine.checkStop id pc =
          (false, machine.marked debugger machine.exec.skipBreakpoint)) := by
  rw [checkStop]
  split
  · dsimp only
    split
    next reason asked stops =>
        obtain ⟨⟨keeps, reported⟩, precedes⟩ := Debugger.keeps_of_stops stops
          (machine.stopAt reason id pc)
        refine ⟨_, keeps, .inl ⟨?_, reason, precedes, (Debugger.stopped_of_reported reported).2⟩⟩
        rw [stopBefore, reportStop]
        change (if (asked.report (machine.stopAt reason id pc)).1 then _ else _) = _
        rw [reported]
        rfl
    next asked passes => exact ⟨asked, Debugger.keeps_of_passes passes, .inr rfl⟩
  · exact ⟨machine.debugger, .refl _, .inr rfl⟩

/-- A report of an exception changes the debugger, and the object is kept if it is taken. -/
theorem stopOnThrow_cases (machine : Machine) (ref : Ref) :
    ∃ debugger, machine.debugger.Keeps debugger ∧
      ((machine.stopOnThrow ref = (true, machine.withheld debugger ref) ∧
        ∃ id className message, machine.exec.method = some id ∧
          machine.debugger.isStopped = false ∧
          debugger.stopped = some
            (machine.stopAt (.exception className message) id machine.exec.pc)) ∨
      machine.stopOnThrow ref = (false, { machine with debugger })) := by
  rw [stopOnThrow]
  split
  · split
    next id className current _ =>
        dsimp only
        rw [reportStop]
        generalize machine.throwableMessage? ref = message
        have keeps := machine.debugger.keeps_report
          (machine.stopAt (.exception className message) id machine.exec.pc)
        have stops : (machine.debugger.report
            (machine.stopAt (.exception className message) id machine.exec.pc)).1 = true → _ :=
          Debugger.stopped_of_reported
        generalize machine.debugger.report
          (machine.stopAt (.exception className message) id machine.exec.pc) = report at keeps stops
        obtain ⟨reported, debugger⟩ := report
        refine ⟨debugger, keeps, ?_⟩
        cases reported with
        | true => exact .inl ⟨rfl, id, className, message, current, stops rfl⟩
        | false => exact .inr rfl
    next => exact ⟨machine.debugger, .refl _, .inr rfl⟩
  · exact ⟨machine.debugger, .refl _, .inr rfl⟩

/-! ## What stays inside the running execution -/

/-- Whether all that waits is left alone. -/
structure Aside (before after : Machine) : Prop where
  id : after.exec.id = before.exec.id
  parked : after.parked = before.parked
  completed : after.completed = before.completed
  nextExec : after.nextExec = before.nextExec
  guestThreads : after.guestThreads = before.guestThreads

/-- Whether the debugger is left alone as well, and no instruction is marked to run without
another stop. -/
structure Inside (before after : Machine) : Prop extends Aside before after where
  debugger : after.debugger = before.debugger
  attached : after.debuggerAttached = before.debuggerAttached
  mark : ∀ place, after.exec.skipBreakpoint = some place →
    before.exec.skipBreakpoint = some place

/-- The veil that shows a machine as it is, and no mark but its own. -/
def around (machine : Machine) : Veil :=
  { Veil.of machine False with
    skips := fun place => if machine.exec.skipBreakpoint = some place then some place else none }

section

variable {before after first second third : Machine}

theorem Aside.trans (left : first.Aside second) (right : second.Aside third) : first.Aside third :=
  ⟨right.id.trans left.id, right.parked.trans left.parked, right.completed.trans left.completed,
    right.nextExec.trans left.nextExec, right.guestThreads.trans left.guestThreads⟩

theorem Inside.trans (left : first.Inside second) (right : second.Inside third) :
    first.Inside third :=
  ⟨left.toAside.trans right.toAside, right.debugger.trans left.debugger,
    right.attached.trans left.attached, fun place marked =>
      left.mark place (right.mark place marked)⟩

theorem veil_around (machine : Machine) : machine.veil machine.around = machine := by
  have mark : machine.exec.skipBreakpoint.bind machine.around.skips =
      machine.exec.skipBreakpoint := by
    cases marked : machine.exec.skipBreakpoint with
    | none => rfl
    | some place => exact if_pos marked
  have exec : machine.exec.veil machine.around = machine.exec.veil (.of machine False) := by
    rw [Execution.veil, Execution.veil, mark, Veil.of, Option.bind_fun_some]
    rfl
  conv_rhs => rw [← veil_of machine False]
  rw [veil, veil, exec]
  rfl

theorem covers_around (machine : Machine) : machine.around.Covers machine :=
  (covers_of False.elim : (Veil.of machine False).Covers machine)

/-- What a veil covers and shows as it is has been left alone. -/
theorem inside_of_hidden (covers : before.around.Covers after)
    (same : after.veil before.around = after) : before.Inside after := by
  obtain ⟨-, id, parked, completed, -⟩ := covers
  refine ⟨⟨id, parked, completed, (congrArg Machine.nextExec same).symm,
    (congrArg Machine.guestThreads same).symm⟩, (congrArg Machine.debugger same).symm,
    (congrArg Machine.debuggerAttached same).symm, fun place marked => ?_⟩
  have mark : after.exec.skipBreakpoint.bind before.around.skips = after.exec.skipBreakpoint :=
    congrArg (fun machine => machine.exec.skipBreakpoint) same
  rw [marked, Option.bind_some] at mark
  by_contra other
  exact absurd ((if_neg other).symm.trans mark) nofun

end

section

variable (machine : Machine)

theorem inside_refl : machine.Inside machine :=
  ⟨⟨rfl, rfl, rfl, rfl, rfl⟩, rfl, rfl, fun _ marked => marked⟩

theorem inside_modifyExec {change : Execution → Execution}
    (keeps : (change machine.exec).id = machine.exec.id)
    (mark : ∀ place, (change machine.exec).skipBreakpoint = some place →
      machine.exec.skipBreakpoint = some place) :
    machine.Inside (machine.modifyExec change) :=
  ⟨⟨keeps, rfl, rfl, rfl, rfl⟩, rfl, rfl, mark⟩

theorem inside_modifyHeap (change : Heap → Heap) : machine.Inside (machine.modifyHeap change) :=
  ⟨⟨rfl, rfl, rfl, rfl, rfl⟩, rfl, rfl, fun _ marked => marked⟩

theorem inside_countStep : machine.Inside machine.countStep :=
  ⟨⟨rfl, rfl, rfl, rfl, rfl⟩, rfl, rfl, fun _ marked => marked⟩

theorem inside_releaseLock (lock : Option Lock) :
    machine.Inside (Guest.releaseLock lock machine) := by
  have same : Guest.releaseLock lock (machine.veil machine.around) = _ :=
    Guest.releaseLock_veil lock machine
  rw [veil_around] at same
  exact inside_of_hidden (Guest.covers_releaseLock lock machine.covers_around) same.symm

theorem inside_abandonExecution : machine.Inside machine.abandonExecution := by
  have same : (machine.veil machine.around).abandonExecution = _ :=
    machine.abandonExecution_veil
  rw [veil_around] at same
  exact inside_of_hidden (covers_abandonExecution id machine.covers_around) same.symm

theorem inside_protectResult (value : Value) : machine.Inside (machine.protectResult value) := by
  rw [protectResult.eq_def]
  split
  · exact machine.inside_modifyHeap _
  · exact machine.inside_refl

theorem inside_reportDeath (id : ExecId) (error : Error) :
    machine.Inside (machine.reportDeath id error) := by
  rw [reportDeath.eq_def]
  split
  · rw [write]
    split <;> exact ⟨⟨rfl, rfl, rfl, rfl, rfl⟩, rfl, rfl, fun _ marked => marked⟩
  · exact machine.inside_refl

end

end Machine

/-! ## Courses -/

/-- A relation along which a machine goes when what its running execution does stays inside, and
when its debugger notes a stop. The machines may be taken for ones that are as they should be. -/
structure Course where
  meant : Machine → Prop
  moves : Machine → Machine → Prop
  trans : ∀ {first second third}, moves first second → moves second third → moves first third
  kept : ∀ {before after}, moves before after → meant after
  inside : ∀ {before after}, meant before → before.Inside after → moves before after
  notes : ∀ {machine : Machine} {debugger}, meant machine → machine.debugger.Keeps debugger →
    moves machine { machine with debugger }
  marks : ∀ {machine : Machine}, meant machine → machine.debugger.isStopped = true → ∀ mark,
    moves machine (machine.marked machine.debugger mark)

namespace Course

variable (course : Course) {ε α β : Type}

instance : Trans course.moves course.moves course.moves := ⟨course.trans⟩

/-- Whether a step moves machines along a course, however it ends. -/
def Follows (step : EStateM ε Machine α) : Prop :=
  ∀ machine, course.meant machine → Moves course.moves step machine fun _ _ => True

variable {course} {machine : Machine}

theorem refl (meant : course.meant machine) : course.moves machine machine :=
  course.inside meant machine.inside_refl

theorem marked {debugger : Debugger} (meant : course.meant machine)
    (keeps : machine.debugger.Keeps debugger) (stops : debugger.isStopped = true)
    (mark : Option (MethodId × UInt32)) : course.moves machine (machine.marked debugger mark) := by
  have notes := course.notes meant keeps
  exact course.trans notes (course.marks (course.kept notes) stops mark)

theorem withheld {debugger : Debugger} (meant : course.meant machine)
    (keeps : machine.debugger.Keeps debugger) (ref : Ref) :
    course.moves machine (machine.withheld debugger ref) := by
  have notes := course.notes meant keeps
  exact course.trans notes
    (course.inside (course.kept notes) (inside_modifyExec _ rfl fun _ marked => marked))

theorem stopBefore (meant : course.meant machine) (reason : StopReason) (id : MethodId)
    (pc : UInt32) : course.moves machine (machine.stopBefore reason id pc).2 := by
  obtain ⟨debugger, keeps, ⟨stops, stopped⟩ | passes⟩ := machine.stopBefore_cases reason id pc
  · rw [stops]
    exact marked meant keeps (Debugger.isStopped_of_eq stopped) _
  · rw [passes]
    exact course.notes meant keeps

theorem checkStop (meant : course.meant machine) (id : MethodId) (pc : UInt32) :
    course.moves machine (machine.checkStop id pc).2 := by
  obtain ⟨debugger, keeps, ⟨stops, _, -, stopped⟩ | passes⟩ := machine.checkStop_cases id pc
  · rw [stops]
    exact marked meant keeps (Debugger.isStopped_of_eq stopped) _
  · rw [passes]
    exact course.notes meant keeps

theorem stopOnThrow (meant : course.meant machine) (ref : Ref) :
    course.moves machine (machine.stopOnThrow ref).2 := by
  obtain ⟨debugger, keeps, ⟨stops, -⟩ | passes⟩ := machine.stopOnThrow_cases ref
  · rw [stops]
    exact withheld meant keeps ref
  · rw [passes]
    exact course.notes meant keeps

namespace Follows

protected theorem pure (value : α) : course.Follows (pure value : EStateM ε Machine α) :=
  fun _ meant => Moves.pure (refl meant) trivial

protected theorem throw (raised : ε) : course.Follows (throw raised : EStateM ε Machine α) :=
  fun _ meant => Moves.throw (refl meant)

protected theorem bind {step : EStateM ε Machine β} {next : β → EStateM ε Machine α}
    (first : course.Follows step) (rest : ∀ value, course.Follows (next value)) :
    course.Follows (step >>= next) :=
  fun machine meant => Moves.bind (first machine meant) fun value after moved _ =>
    rest value after (course.kept moved)

theorem get_bind {next : Machine → EStateM ε Machine α}
    (rest : ∀ machine, course.Follows (next machine)) : course.Follows (get >>= next) :=
  fun machine meant => Moves.get_bind (rest machine machine meant)

theorem modifyExec {change : Execution → Execution} (keeps : ∀ exec, (change exec).id = exec.id)
    (mark : ∀ exec place, (change exec).skipBreakpoint = some place →
      exec.skipBreakpoint = some place) :
    course.Follows (modify fun machine => machine.modifyExec change : EStateM ε Machine PUnit) :=
  fun machine meant =>
    Moves.modify (course.inside meant (inside_modifyExec machine (keeps _) (mark _))) trivial

theorem modify {change : Machine → Machine}
    (inside : ∀ machine : Machine, machine.Inside (change machine)) :
    course.Follows (modify change : EStateM ε Machine PUnit) :=
  fun machine meant => Moves.modify (course.inside meant (inside machine)) trivial

theorem modifyGet {change : Machine → α × Machine}
    (moves : ∀ {machine}, course.meant machine → course.moves machine (change machine).2) :
    course.Follows (modifyGet change : EStateM ε Machine α) :=
  fun _ meant => Moves.modifyGet (moves meant) trivial

/-- What cannot look behind a veil stays inside. -/
theorem of_blind {step : EStateM ε Machine α}
    (blind : ∀ machine : Machine, Blind machine.around step) : course.Follows step := by
  intro machine meant
  have hidden := BlindAt.ends_hidden machine.veil_around
    (.of_blind (blind machine) machine.covers_around)
  exact Ends.mono hidden
    (fun _ _ ended => ⟨course.inside meant (inside_of_hidden ended.1 ended.2), trivial⟩)
    fun _ _ ended => course.inside meant (inside_of_hidden ended.1 ended.2)

theorem ofHost {step : Host α} (follows : course.Follows step) :
    course.Follows (Guest.ofHost step) :=
  fun machine meant => Guest.moves_ofHost (follows machine meant)

theorem onThrow {step : Guest α} (follows : course.Follows step) (lock : Option Lock) :
    course.Follows (Guest.onThrow step (Guest.releaseLock lock)) :=
  fun machine meant => Guest.moves_onThrow (follows machine meant) fun after moved =>
    course.trans moved (course.inside (course.kept moved) (after.inside_releaseLock lock))

theorem request {step : Host α} (follows : course.Follows step) :
    course.Follows (HostAction.request step) :=
  fun machine meant => HostAction.moves_request (follows machine meant)

theorem attempt {step : Guest α} (follows : course.Follows step) :
    course.Follows (Host.attempt step) :=
  fun machine meant => Host.moves_attempt (follows machine meant)

theorem catching {step : Host α} (follows : course.Follows step) :
    course.Follows (Host.catching step) :=
  fun machine meant => Host.moves_catching (follows machine meant)

end Follows

/-! ## Natives -/

variable (course)

/-- Whether what natives do moves machines along a course. -/
def Admits (reentry : Reentry) : Prop :=
  ∀ (native : Native) arguments, course.Follows (native.run reentry arguments)

variable {course} {reentry : Reentry}

theorem follows_hostAction
    (calls : ∀ id arguments, course.Follows (reentry.call id arguments)) (action : HostAction) :
    course.Follows (action.run reentry) := by
  induction action with
  | finish value => exact .pure _
  | raise exception => exact .throw _
  | fail error => exact .of_blind fun _ => Guest.blind_fatal _
  | newString text next ih =>
      refine .bind (.request ?_) ih
      exact .of_blind fun _ => Host.blind_ofGuest (Guest.blind_newString text)
  | invokeStatic owner name descriptor arguments next ih =>
      refine .bind (.request (.bind ?_ fun method => calls method arguments)) ih
      exact .of_blind fun _ => Host.blind_findStatic _ _ _
  | depth exec next ih => exact .get_bind fun _ => ih _
  | terminate next ih =>
      exact .bind (.modify fun _ => ⟨⟨rfl, rfl, rfl, rfl, rfl⟩, rfl, rfl, fun _ marked => marked⟩)
        fun _ => ih

/-- All that natives do besides starting threads and calling back stays inside. -/
theorem admits_of_calls (calls : ∀ id arguments, course.Follows (reentry.call id arguments))
    (starts : ∀ thread, course.Follows (ThreadNative.begin reentry thread)) :
    course.Admits reentry := by
  intro native arguments
  cases native with
  | host action => exact follows_hostAction calls (action arguments)
  | builtin own =>
      cases own with
      | thread native =>
          by_cases launches : native = .start
          · subst launches
            exact .bind (.of_blind fun _ => Guest.blind_nonNull _ _) starts
          · refine .of_blind fun machine => ThreadNative.blind_run ?_ reentry arguments
            cases native with
            | start => exact launches rfl
            | sleep | yield => exact id
            | isAlive | currentThread => exact trivial
      | system native =>
          refine .of_blind fun _ => SystemNative.blind_run ?_ arguments
          cases native <;> exact trivial
      | object native => exact .of_blind fun _ => native.blind_run arguments
      | string native => exact .of_blind fun _ => native.blind_run arguments
      | cls native => exact .of_blind fun _ => native.blind_run arguments
      | math native | float native | double native => exact .pure _
      | printStream native => exact .of_blind fun _ => native.blind_run arguments

section

variable (admits : course.Admits reentry)

include admits

/-! ## Instructions -/

open Guest

theorem follows_callNative (id : MethodId) : course.Follows (callNative reentry id) := by
  refine .bind (.of_blind fun _ => blind_bindNative id) fun native => .get_bind fun machine => ?_
  dsimp only
  split
  · exact .of_blind fun _ => blind_fault _
  · exact (admits native _).bind fun value =>
      .bind (.of_blind fun _ => blind_onStack _) fun _ => .pure _

theorem follows_invoke (id : MethodId) (callerPc returnPc : UInt32) :
    course.Follows (invoke reentry id callerPc returnPc) := by
  refine .get_bind fun machine => ?_
  dsimp only
  split
  · exact .of_blind fun _ => blind_raise _ _
  · refine .bind (.of_blind fun _ => blind_takeLock _) fun taken => ?_
    split
    · exact .pure _
    · split
      · refine (follows_callNative admits id).onThrow _ |>.bind fun value =>
          .bind (.modify fun machine => ?_) fun _ => .pure _
        exact (machine.inside_releaseLock _).trans (inside_modifyExec _ rfl fun _ marked => marked)
      · exact (Follows.onThrow (.of_blind fun _ => blind_pushFrame _ _ _) _).bind fun _ => .pure _

theorem follows_invokeInstance (mode : CallMode) (owner : ClassId) (index : UInt16)
    (pc next : UInt32) : course.Follows (invokeInstance reentry mode owner index pc next) := by
  refine .bind (.of_blind fun _ => blind_resolveMethod _ _) fun resolved =>
    .get_bind fun machine => ?_
  dsimp only
  split
  · exact .of_blind fun _ => blind_mismatch _
  · split
    · exact .of_blind fun _ => blind_raiseNull _
    · exact .bind (.of_blind fun _ => blind_selectTarget _ _ _) fun target =>
        follows_invoke admits target pc next

theorem follows_invokeStatic (owner : ClassId) (index : UInt16) (pc next : UInt32) :
    course.Follows (invokeStatic reentry owner index pc next) := by
  refine .bind (.of_blind fun _ => blind_resolveMethod _ _) fun resolved => ?_
  split
  · exact .get_bind fun _ => .of_blind fun _ => blind_mismatch _
  · refine .bind (.of_blind fun _ => blind_ensureInitialized _ _) fun pushed => ?_
    split
    · exact .pure _
    · exact follows_invoke admits _ pc next

theorem follows_execute (id : MethodId) (code : Array UInt8) (pc next : UInt32) (instr : Instr) :
    course.Follows (execute reentry id code pc next instr) := by
  by_cases stays : instr.isCallOrReturn = false
  · exact .of_blind fun _ => blind_execute stays reentry id code pc next
  cases instr with
  | leave kind =>
      have returns : ∀ value, course.Follows (returnFromFrame value) := fun value =>
        .of_blind fun _ => blind_returnFromFrame (fun busy => busy) value
      cases kind with
      | none => exact returns _
      | some kind => exact .bind (.of_blind fun _ => blind_fromStack _) returns
  | invoke mode index => exact follows_invokeInstance admits mode id.owner index pc next
  | invokeStatic index => exact follows_invokeStatic admits id.owner index pc next
  | _ => exact absurd rfl stays

theorem follows_executeByte (id : MethodId) (code : Array UInt8) (pc : UInt32) (byte : UInt8) :
    course.Follows (executeByte reentry id code pc byte) := by
  rw [executeByte]
  split
  · exact .of_blind fun _ => blind_ofDecodeFault id _
  · exact .bind (.of_blind fun _ => blind_ofDecode id _) fun decoded =>
      follows_execute admits id code pc decoded.2 decoded.1

omit admits in
theorem follows_fetch (id : MethodId) (pc : UInt32) (byte : UInt8) :
    course.Follows (fetch id pc byte) := by
  have under : ∀ resumed, course.Follows (underBreakpoint id pc resumed) := by
    refine fun resumed => .get_bind fun machine => ?_
    split
    · exact .of_blind fun _ => blind_fatal _
    · split
      · exact .pure _
      · refine .bind (.modifyGet fun meant => stopBefore meant _ id pc) fun stopped => ?_
        split <;> exact .pure _
  have bytes : ∀ resumed, course.Follows (if byte = Opcode.breakpoint.byte then
      underBreakpoint id pc resumed else pure (some byte)) := by
    intro resumed
    split
    · exact under resumed
    · exact .pure _
  have resumes : course.Follows (takeResumed id pc) := by
    refine .get_bind fun machine => ?_
    split
    · exact .pure _
    · exact .bind (.modifyExec (fun _ => rfl) nofun) fun _ => .pure _
  refine resumes.bind fun resumed => ?_
  cases resumed with
  | true => exact bytes true
  | false =>
      refine .bind (.modifyGet fun meant => checkStop meant id pc) fun stopped => ?_
      cases stopped with
      | true => exact .pure _
      | false => exact bytes false

theorem follows_step : course.Follows (step reentry) := by
  refine .get_bind fun machine => ?_
  split
  · exact .of_blind fun _ => blind_fault _
  · refine .bind (.of_blind fun _ => blind_ofDecode _ _) fun byte =>
      (follows_fetch _ _ byte).bind fun fetched => ?_
    split
    · exact .pure _
    · exact follows_executeByte admits _ _ _ _

/-! ## Slices -/

open Host

omit admits in
theorem follows_unwind (ref : Ref) : course.Follows (Host.unwind ref) :=
  .of_blind fun _ => blind_ofGuest (Guest.blind_unwind (fun busy => busy) ref)

omit admits in
theorem follows_abandon {α : Type} (error : Error) : course.Follows (abandon error : Host α) :=
  .bind (.modify fun machine => machine.inside_abandonExecution) fun _ => .throw _

omit admits in
theorem follows_afterStep (ended : Except Throw Step) : course.Follows (afterStep ended) := by
  match ended with
  | .ok .blocked => exact .pure _
  | .ok .next =>
      refine .bind (.modify inside_countStep) fun _ => .get_bind fun machine => ?_
      split
      · refine .bind (.modify fun _ =>
          ⟨⟨rfl, rfl, rfl, rfl, rfl⟩, rfl, rfl, fun _ marked => marked⟩) fun _ =>
          .get_bind fun machine => ?_
        split <;> exact .pure _
      · exact .pure _
  | .ok (.returned value) =>
      refine .bind (.modify fun machine => ?_) fun _ => .pure _
      exact machine.inside_countStep.trans (machine.countStep.inside_protectResult value)
  | .ok .suspended => exact .bind (.modify inside_countStep) fun _ => .pure _
  | .error (.exception ref) =>
      refine .bind (.modify inside_countStep) fun _ =>
        .bind (.modifyGet fun meant => stopOnThrow meant ref) fun stopped => ?_
      split
      · exact .pure _
      · exact (follows_unwind ref).bind fun _ => .pure _
  | .error (.fatal error) =>
      refine .bind (.modify fun machine => ?_) fun _ => .throw _
      exact machine.inside_countStep.trans machine.countStep.inside_abandonExecution

theorem follows_runStep : course.Follows (runStep reentry) := by
  refine .bind (.modify fun machine => machine.inside_modifyHeap _) fun _ =>
    .get_bind fun machine => ?_
  split
  · exact .bind (.modifyExec (fun _ => rfl) fun _ _ marked => marked) fun _ =>
      (follows_unwind _).bind fun _ => .pure _
  · exact (follows_step admits).attempt.bind follows_afterStep

theorem follows_runSteps (budget : Nat) : course.Follows (runSteps reentry budget) := by
  induction budget with
  | zero => exact .pure _
  | succ budget ih =>
      refine (follows_runStep admits).bind fun outcome => ?_
      split
      · exact .pure _
      · exact ih

theorem follows_runSlice (budget : Nat) : course.Follows (runSlice reentry budget) := by
  refine .get_bind fun machine => ?_
  split
  · exact .throw _
  · split
    · exact .pure _
    · exact .bind (.modify fun _ =>
        ⟨⟨rfl, rfl, rfl, rfl, rfl⟩, rfl, rfl, fun _ marked => marked⟩) fun _ =>
        follows_runSteps admits budget

/-! ## Calls -/

/-- A call gives slices to the threads of guest code between its own. -/
theorem follows_runToCompletion (threads : course.Follows (runGuestSlices reentry)) (fuel : Nat) :
    course.Follows (runToCompletion reentry fuel) := by
  have sleeps : ∀ wakeAt, course.Follows
      (modify fun machine => machine.sleepUntil wakeAt : Host PUnit) :=
    fun _ => .modify fun _ => ⟨⟨rfl, rfl, rfl, rfl, rfl⟩, rfl, rfl, fun _ marked => marked⟩
  have between : ∀ before blocked wakeAt,
      course.Follows (betweenSlices reentry before blocked wakeAt) := by
    refine fun before blocked wakeAt => .get_bind fun machine => ?_
    split
    · cases wakeAt with
      | some wakeAt =>
          dsimp only
          split
          · exact (follows_abandon _).bind fun _ => sleeps wakeAt
          · exact sleeps wakeAt
      | none =>
          dsimp only
          split
          · exact (follows_abandon _).bind fun _ => .pure _
          · exact .pure _
    · refine threads.bind fun round => .get_bind fun machine => ?_
      split
      · split
        · exact sleeps _
        · split
          · exact follows_abandon _
          · exact .pure _
      · exact .pure _
  induction fuel with
  | zero => exact .throw _
  | succ fuel ih =>
      refine .get_bind fun machine => ?_
      split
      · exact follows_abandon _
      · refine .get_bind fun machine => .get_bind fun machine =>
          (follows_runSlice admits _).bind fun outcome => ?_
        split
        · exact .pure _
        · exact .throw _
        · exact (between _ _ _).bind fun _ => ih
        · exact (between _ _ _).bind fun _ => ih
        · exact (between _ _ _).bind fun _ => ih

omit admits in
theorem follows_resetExec : course.Follows resetExec :=
  .modifyExec (fun _ => rfl) nofun

omit admits in
theorem follows_settle {α : Type} (ended : Except Throw α) : course.Follows (settle ended) := by
  rw [settle.eq_def]
  split
  · exact .pure _
  · exact (follows_unwind _).bind fun _ => .pure _
  · exact follows_resetExec.bind fun _ => .throw _

variable {complete : Host Value} (completes : course.Follows complete)

include completes

omit admits in
theorem follows_initializeClass (id : ClassId) : course.Follows (initializeClass complete id) := by
  refine (Follows.attempt (.of_blind fun _ => Guest.blind_ensureInitialized _ _)).bind
    fun ended => (follows_settle ended).bind fun pushed => ?_
  split
  · exact completes.bind fun _ => .pure _
  · exact .pure _

theorem follows_stageNative (id : MethodId) (arguments : List Value) :
    course.Follows (stageNative reentry complete id arguments) := by
  refine (follows_initializeClass completes id.owner).bind fun _ =>
    .bind (.modifyExec (fun _ => rfl) fun _ _ marked => marked) fun _ =>
    (follows_callNative admits id).attempt.bind fun ended =>
    (follows_settle ended).bind fun value => ?_
  split
  · exact follows_resetExec.bind fun _ => .pure _
  · exact .pure _

theorem follows_stageCall (id : MethodId) (arguments : List Value) :
    course.Follows (stageCall reentry complete id arguments) := by
  refine .get_bind fun machine => ?_
  split
  · exact follows_stageNative admits completes id arguments
  · have stages : course.Follows (stageFrame reentry id) := by
      refine (follows_invoke admits id 0 0).bind fun step => ?_
      split
      · exact .get_bind fun _ => .of_blind fun _ => Guest.blind_fault _
      · exact .bind (.of_blind fun _ => Guest.blind_ensureInitialized _ _) fun _ => .pure _
    exact .bind (.modifyExec (fun _ => rfl) fun _ _ marked => marked) fun _ =>
      stages.attempt.bind fun ended => (follows_settle ended).bind fun _ => .pure _

theorem follows_enterMethod (id : MethodId) (arguments : List Value) :
    course.Follows (enterMethod reentry complete id arguments) := by
  refine .get_bind fun machine => ?_
  split
  · exact .throw _
  · split
    · exact .throw _
    · refine follows_resetExec.bind fun _ =>
        .bind (.modify fun machine => machine.inside_modifyHeap _) fun _ =>
        (follows_stageCall admits completes id arguments).catching.bind fun result =>
        .bind (.modify fun machine => machine.inside_modifyHeap _) fun _ => ?_
      split
      · exact .pure _
      · exact .throw _

end

end Course

end Jvm
