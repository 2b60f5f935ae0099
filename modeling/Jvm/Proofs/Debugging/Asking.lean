import Jvm.Proofs.Debugging.Reporting
import Jvm.Proofs.Debugging.Simulating

/-!
# What an instruction asks the debugger

Before it begins, an instruction that is not marked asks the debugger, which gets the stop that it
wants; then there may be a breakpoint. If neither stops the execution, the instruction runs. So what
an instruction has been is one of three things: an object thrown on, a stop before the instruction,
or the instruction. A stop leaves one mark, and no mark outlasts the instruction that has it.
-/

namespace Jvm

open Machine

/-! ## Places -/

namespace StepRequest

variable (request : StepRequest) (place : StepPlace)

/-- Whether a place is on the line that the step started on. Where a line is not known, only
the pc that it started at is. -/
def OnLine : Prop :=
  place.method = request.start.method ∧
    match place.line, request.start.line with
    | some line, some start => line = start
    | _, _ => place.pc = request.start.pc

/-- Whether the step is over at a place. -/
def EndsAt : Prop :=
  match request.mode with
  | .into => place.depth ≠ request.start.depth ∨ ¬request.OnLine place
  | .over => place.depth < request.start.depth ∨
      place.depth = request.start.depth ∧ ¬request.OnLine place
  | .out => place.depth < request.start.depth

theorem sameLine_iff : request.sameLine place = true ↔ request.OnLine place := by
  rw [sameLine, OnLine, Bool.and_eq_true, beq_iff_eq]
  refine and_congr_right fun _ => ?_
  cases place.line with
  | none => exact beq_iff_eq
  | some line =>
      cases request.start.line with
      | none => exact beq_iff_eq
      | some start => exact beq_iff_eq

theorem reached_iff : request.reached place = true ↔ request.EndsAt place := by
  rw [reached, EndsAt]
  cases request.mode
  · simp only [Bool.or_eq_true, bne_iff_ne, Bool.not_eq_true', ← sameLine_iff, Bool.not_eq_true]
  · simp only [Bool.or_eq_true, Bool.and_eq_true, decide_eq_true_eq, beq_iff_eq,
      Bool.not_eq_true', ← sameLine_iff, Bool.not_eq_true]
  · exact decide_eq_true_iff

instance : Decidable (request.EndsAt place) := decidable_of_iff _ (request.reached_iff place)

end StepRequest

/-- The step that a host asks for where an execution is stopped. -/
def StopEvent.request (stop : StopEvent) (mode : StepMode) : StepRequest :=
  ⟨mode, stop.exec, ⟨stop.method, stop.line, stop.pc, stop.depth⟩⟩

namespace Debugger

/-- Whether a debugger wants an execution to stop before the instruction at a place. A stop that
is requested goes before the end of a step. -/
def Wants (debugger : Debugger) (exec : ExecId) (place : StepPlace) : StopReason → Prop
  | .requested => debugger.stopRequested = true
  | .step => debugger.stopRequested = false ∧
      ∃ request, debugger.step = some request ∧ request.exec = exec ∧ request.EndsAt place
  | .breakpoint | .exception _ _ => False

/-- A debugger that has got what it wanted. -/
def sated (debugger : Debugger) : StopReason → Debugger
  | .requested => { debugger with stopRequested := false }.rearm
  | .step => { debugger with step := none }.rearm
  | .breakpoint | .exception _ _ => debugger

variable {debugger : Debugger} {exec : ExecId} {place : StepPlace}

theorem shouldStop_of_wants (running : debugger.isStopped = false) {reason : StopReason}
    (wants : debugger.Wants exec place reason) :
    debugger.shouldStop exec place = (some reason, debugger.sated reason) := by
  rw [shouldStop, if_neg (by rw [running]; exact Bool.false_ne_true)]
  cases reason with
  | requested => exact if_pos wants
  | step =>
      obtain ⟨unasked, request, outstanding, own, ends⟩ := wants
      rw [if_neg (by rw [unasked]; exact Bool.false_ne_true), outstanding]
      exact if_pos ⟨own, (request.reached_iff place).mpr ends⟩
  | breakpoint | exception => exact wants.elim

/-- Where nothing is wanted, asking changes nothing. -/
theorem shouldStop_of_not_wants (exact : debugger.Exact)
    (unwanted : ∀ reason, ¬debugger.Wants exec place reason) :
    debugger.shouldStop exec place = (none, debugger) := by
  rw [shouldStop]
  split
  · rfl
  · have unasked : debugger.stopRequested = false := Bool.eq_false_iff.mpr (unwanted .requested)
    rw [if_neg (by rw [unasked]; exact Bool.false_ne_true), rearm_of_exact exact]
    cases outstanding : debugger.step with
    | none => rfl
    | some request =>
        refine if_neg fun ends => unwanted .step ⟨unasked, request, outstanding, ends.1, ?_⟩
        exact (request.reached_iff place).mp ends.2

/-- What is wanted is asked for. -/
theorem armed_of_wants (exact : debugger.Exact) {reason : StopReason}
    (wants : debugger.Wants exec place reason) : debugger.armed = true := by
  rw [exact, Bool.or_eq_true]
  cases reason with
  | requested => exact .inl wants
  | step =>
      obtain ⟨-, request, outstanding, -⟩ := wants
      rw [outstanding]
      exact .inr rfl
  | breakpoint | exception => exact wants.elim

theorem stopped_sated (reason : StopReason) :
    (debugger.sated reason).stopped = debugger.stopped := by
  cases reason <;> rfl

end Debugger

/-! ## Instructions -/

namespace Machine

/-- The place of the running execution, in a method. -/
def placeIn (machine : Machine) (id : MethodId) : StepPlace :=
  ⟨id, (machine.method id).lineOf machine.exec.pc, machine.exec.pc, machine.exec.depth⟩

/-- Whether the next thing to run is an instruction that starts with a byte. -/
structure Faces (machine : Machine) (id : MethodId) (byte : UInt8) : Prop where
  current : machine.exec.method = some id
  there : (machine.bytecode id)[machine.exec.pc.toNat]? = some byte
  clear : machine.exec.pendingException = none

instance (machine : Machine) (id : MethodId) (byte : UInt8) : Decidable (machine.Faces id byte) :=
  decidable_of_iff (machine.exec.method = some id ∧
    (machine.bytecode id)[machine.exec.pc.toNat]? = some byte ∧
    machine.exec.pendingException = none)
    ⟨fun ⟨current, there, clear⟩ => ⟨current, there, clear⟩,
      fun faces => ⟨faces.current, faces.there, faces.clear⟩⟩

/-- A machine as an instruction finds it that the debugger, which may have been asked, lets
run. -/
def admitting (machine : Machine) (debugger : Debugger) : Machine :=
  machine.unprotected.marked debugger none

/-- A machine that has stopped before its next instruction. All but the debugger, the mark of
the instruction and the count of steps is as the instruction would have found it. -/
def halted (machine : Machine) (left : Debugger) (reason : StopReason) (id : MethodId) : Machine :=
  (machine.unprotected.marked
    { left with stopped := some (machine.stopAt reason id machine.exec.pc) }
    (some (id, machine.exec.pc))).countStep

section

variable {machine after : Machine} {reason : StopReason} {id : MethodId} {pc : UInt32}

theorem stopBefore_of_running (running : machine.debugger.isStopped = false) :
    machine.stopBefore reason id pc =
      (true, machine.marked { machine.debugger with stopped := some (machine.stopAt reason id pc) }
        (some (id, pc))) := by
  rw [stopBefore, reportStop, Debugger.report,
    if_neg (by rw [running]; exact Bool.false_ne_true)]
  rfl

theorem stopBefore_of_stopped (stopped : machine.debugger.isStopped = true) :
    machine.stopBefore reason id pc = (false, machine) := by
  rw [stopBefore, reportStop, Debugger.report, if_pos stopped]
  rfl

theorem checkStop_of_wants (attached : machine.debuggerAttached = true)
    (exact : machine.debugger.Exact) (running : machine.debugger.isStopped = false)
    (wants : machine.debugger.Wants machine.exec.id
      ⟨id, (machine.method id).lineOf pc, pc, machine.exec.depth⟩ reason) :
    machine.checkStop id pc =
      (true, machine.marked { machine.debugger.sated reason with
        stopped := some (machine.stopAt reason id pc) } (some (id, pc))) := by
  have asks : (machine.debuggerAttached && machine.debugger.armed) = true := by
    rw [attached, Debugger.armed_of_wants exact wants]
    rfl
  have free : (machine.debugger.sated reason).isStopped = false := by
    rw [Debugger.isStopped, Debugger.stopped_sated]
    exact running
  rw [checkStop, if_pos asks]
  simp only [Debugger.shouldStop_of_wants running wants]
  exact stopBefore_of_running free

theorem checkStop_of_not_wants (exact : machine.debugger.Exact)
    (unwanted : ∀ reason, ¬machine.debugger.Wants machine.exec.id
      ⟨id, (machine.method id).lineOf pc, pc, machine.exec.depth⟩ reason) :
    machine.checkStop id pc = (false, machine) := by
  rw [checkStop]
  split
  · simp only [Debugger.shouldStop_of_not_wants exact unwanted]
  · rfl

end

/-- The byte that an instruction starts with: the one under a breakpoint, where there is one. -/
def byteUnder (machine : Machine) (id : MethodId) (byte : UInt8) : UInt8 :=
  (Guest.plainByte machine.breakpoints id machine.exec.pc byte).getD Opcode.breakpoint.byte

end Machine

namespace Guest

variable {machine : Machine} {id : MethodId} {pc : UInt32} {byte run : UInt8} {resumed : Bool}

/-- The byte at the pc, once the debugger was asked. -/
theorem bytes_of_plain (plain : plainByte machine.breakpoints id pc byte = some run)
    (passes : byte = Opcode.breakpoint.byte → machine.debuggerAttached = true →
      resumed = true ∨ machine.debugger.isStopped = true) :
    (if byte = Opcode.breakpoint.byte then underBreakpoint id pc resumed
      else pure (some byte) : Guest (Option UInt8)) machine = .ok (some run) machine := by
  rw [plainByte] at plain
  split at plain
  next stands =>
      rw [if_pos stands]
      have recorded : machine.breakpoint? id pc = some run := plain
      by_cases asks : (!machine.debuggerAttached || resumed) = true
      · simp only [underBreakpoint, bind, EStateM.bind, run_get, recorded, if_pos asks]
        rfl
      · have stopped : machine.debugger.isStopped = true := by
          simp only [Bool.or_eq_true, not_or, Bool.not_eq_true', Bool.not_eq_false] at asks
          exact (passes stands asks.1).resolve_left asks.2
        simp only [underBreakpoint, bind, EStateM.bind, run_get, recorded, if_neg asks,
          run_modifyGet, stopBefore_of_stopped stopped]
        rfl
  next other =>
      rw [if_neg other]
      exact congrArg (EStateM.Result.ok · machine) plain

/-- A breakpoint stops the execution, unless that is why the instruction is marked. -/
theorem bytes_of_breaks (stands : byte = Opcode.breakpoint.byte)
    (recorded : machine.breakpoints.lookup (id, pc) = some run)
    (attached : machine.debuggerAttached = true)
    (running : machine.debugger.isStopped = false) :
    (if byte = Opcode.breakpoint.byte then underBreakpoint id pc false
      else pure (some byte) : Guest (Option UInt8)) machine =
        .ok none (machine.marked { machine.debugger with
          stopped := some (machine.stopAt .breakpoint id pc) } (some (id, pc))) := by
  rw [if_pos stands]
  have recorded : machine.breakpoint? id pc = some run := recorded
  simp only [underBreakpoint, bind, EStateM.bind, run_get, recorded, attached, Bool.not_true,
    Bool.or_self, Bool.false_eq_true, if_false, run_modifyGet, stopBefore_of_running running]
  rfl

theorem bytes_of_unrecorded (unrecorded : plainByte machine.breakpoints id pc byte = none) :
    (if byte = Opcode.breakpoint.byte then underBreakpoint id pc resumed
      else pure (some byte) : Guest (Option UInt8)) machine =
        .error (strayBreakpoint machine id pc) machine := by
  rw [plainByte] at unrecorded
  split at unrecorded
  next stands =>
      rw [if_pos stands]
      have unset : machine.breakpoint? id pc = none := unrecorded
      simp only [underBreakpoint, bind, EStateM.bind, run_get, unset]
      rfl
  next => cases unrecorded

/-- The marked instruction is not asked about. -/
theorem fetch_of_marked (mark : machine.exec.skipBreakpoint = some (id, pc)) :
    fetch id pc byte machine = (if byte = Opcode.breakpoint.byte then underBreakpoint id pc true
      else pure (some byte) : Guest (Option UInt8)) (machine.marked machine.debugger none) := by
  have resumes := takeResumed_eq id pc machine
  rw [mark, beq_self_eq_true] at resumes
  rw [fetch, bind_of_ok resumes]
  rfl

/-- An instruction that is not marked asks, and looks at its byte if that is not all. -/
theorem fetch_of_asks (unmarked : machine.exec.skipBreakpoint ≠ some (id, pc)) {stops : Bool}
    {asked : Machine}
    (asks : (machine.marked machine.debugger none).checkStop id pc = (stops, asked)) :
    fetch id pc byte machine = (if stops then pure none
      else if byte = Opcode.breakpoint.byte then underBreakpoint id pc false
      else pure (some byte) : Guest (Option UInt8)) asked := by
  have resumes := takeResumed_eq id pc machine
  rw [beq_eq_false_iff_ne.mpr unmarked] at resumes
  have answers : (modifyGet fun machine => machine.checkStop id pc : Guest Bool)
      (machine.marked machine.debugger none) = .ok stops asked := by rw [run_modifyGet, asks]
  rw [fetch, bind_of_ok resumes]
  change ((modifyGet fun machine => machine.checkStop id pc : Guest Bool) >>= _) _ = _
  rw [bind_of_ok answers]

/-- A step fetches its byte and runs it, or ends before it. -/
theorem step_eq {reentry : Reentry} (current : machine.exec.method = some id)
    (there : (machine.bytecode id)[machine.exec.pc.toNat]? = some byte) :
    step reentry machine = (fetch id machine.exec.pc byte >>= fun fetched =>
      fetched.elim (pure .suspended) fun run =>
        executeByte reentry id (machine.bytecode id) machine.exec.pc run) machine := by
  simp only [step, bind, EStateM.bind, run_get, current]
  rw [show (machine.method id).code.elim #[] (·.bytecode) = machine.bytecode id from rfl]
  simp only [Bytecode.byte, there, ofDecode, pure, EStateM.pure]
  cases fetch id machine.exec.pc byte machine with
  | error raised after => rfl
  | ok fetched after => cases fetched <;> rfl

end Guest

namespace Host

variable {reentry : Reentry} {machine : Machine} {id : MethodId} {byte run : UInt8}

/-- An instruction that starts with a byte, and what follows it. The debugger is not asked. -/
def instruct (reentry : Reentry) (id : MethodId) (run : UInt8) : Host (Option SliceOutcome) := do
  let machine ← get
  let ended ← attempt
    (Guest.executeByte reentry id (machine.bytecode id) machine.exec.pc run)
  afterStep ended

section

variable (faces : machine.Faces id byte)

include faces

theorem runStep_of_runs {debugger : Debugger}
    (fetches : Guest.fetch id machine.exec.pc byte machine.unprotected =
      .ok (some run) (machine.admitting debugger)) :
    runStep reentry machine = instruct reentry id run (machine.admitting debugger) := by
  have steps : Guest.step reentry machine.unprotected = _ :=
    Guest.step_eq faces.current faces.there
  rw [runStep_of_clear faces.clear]
  simp only [bind, EStateM.bind, attempt, instruct, run_get] at steps ⊢
  rw [steps]
  have fetches : Guest.fetch id machine.unprotected.exec.pc byte
    machine.unprotected = .ok (some run) (machine.admitting debugger) := fetches
  rw [fetches]
  rfl

theorem runStep_of_halts {stopped : Machine}
    (fetches : Guest.fetch id machine.exec.pc byte machine.unprotected =
      .ok none stopped) :
    runStep reentry machine = .ok (some .suspended) stopped.countStep := by
  have steps : Guest.step reentry machine.unprotected = _ :=
    Guest.step_eq faces.current faces.there
  have fetches : Guest.fetch id machine.unprotected.exec.pc byte
    machine.unprotected = .ok none stopped := fetches
  rw [bind_of_ok fetches] at steps
  rw [runStep_of_clear faces.clear]
  simp only [bind, EStateM.bind, attempt, steps]
  rfl

/-- A breakpoint that nobody set runs, as what is no instruction. -/
theorem runStep_of_strays {debugger : Debugger}
    (fetches : Guest.fetch id machine.exec.pc byte machine.unprotected =
      .error (Guest.strayBreakpoint machine id machine.exec.pc) (machine.admitting debugger)) :
    runStep reentry machine =
      instruct reentry id Opcode.breakpoint.byte (machine.admitting debugger) := by
  have steps : Guest.step reentry machine.unprotected = _ :=
    Guest.step_eq faces.current faces.there
  simp only [bind, EStateM.bind, show machine.unprotected.exec.pc = machine.exec.pc from rfl,
    fetches] at steps
  have runs := Guest.executeByte_breakpoint reentry id
    ((machine.admitting debugger).bytecode id) machine.exec.pc (machine.admitting debugger)
  rw [runStep_of_clear faces.clear]
  simp only [bind, EStateM.bind, attempt, instruct, run_get, steps]
  rw [show (machine.admitting debugger).exec.pc = machine.exec.pc from rfl, runs]
  rfl

/-- The byte at the pc runs, or the one that is recorded under it. -/
theorem runStep_of_bytes {debugger : Debugger} {resumed : Bool}
    (fetches : Guest.fetch id machine.exec.pc byte machine.unprotected =
      (if byte = Opcode.breakpoint.byte then Guest.underBreakpoint id machine.exec.pc resumed
        else pure (some byte) : Guest (Option UInt8)) (machine.admitting debugger))
    (passes : byte = Opcode.breakpoint.byte → machine.debuggerAttached = true →
      machine.breakpoints.lookup (id, machine.exec.pc) ≠ none →
        resumed = true ∨ debugger.isStopped = true) :
    runStep reentry machine =
      instruct reentry id (machine.byteUnder id byte) (machine.admitting debugger) := by
  rw [byteUnder]
  cases plain : Guest.plainByte machine.breakpoints id machine.exec.pc byte with
  | some run =>
      refine runStep_of_runs faces (fetches.trans (Guest.bytes_of_plain plain ?_))
      refine fun stands attached => passes stands attached ?_
      rw [Guest.plainByte, if_pos stands] at plain
      exact plain ▸ Option.some_ne_none run
  | none => exact runStep_of_strays faces (fetches.trans (Guest.bytes_of_unrecorded plain))

/-- An instruction that is marked runs, whatever the debugger wants. -/
theorem runStep_of_marked (mark : machine.exec.skipBreakpoint = some (id, machine.exec.pc)) :
    runStep reentry machine = instruct reentry id (machine.byteUnder id byte)
      (machine.admitting machine.debugger) :=
  runStep_of_bytes faces (Guest.fetch_of_marked mark) fun _ _ _ => .inl rfl

section

variable (unmarked : machine.exec.skipBreakpoint ≠ some (id, machine.exec.pc))
  (exact : machine.debugger.Exact)

include unmarked exact

/-- Before an instruction that is not marked the debugger gets the stop that it wants. -/
theorem runStep_of_wants (attached : machine.debuggerAttached = true)
    (running : machine.debugger.isStopped = false) {reason : StopReason}
    (wants : machine.debugger.Wants machine.exec.id (machine.placeIn id) reason) :
    runStep reentry machine = .ok (some .suspended)
      (machine.halted (machine.debugger.sated reason) reason id) := by
  have stops : (machine.admitting machine.debugger).checkStop id machine.exec.pc = _ :=
    checkStop_of_wants attached exact running wants
  have other : machine.unprotected.exec.skipBreakpoint ≠ _ := unmarked
  exact runStep_of_halts faces (Guest.fetch_of_asks other stops)

/-- Otherwise the instruction runs, unless there is a breakpoint. -/
theorem runStep_of_not_wants
    (unwanted : ∀ reason, ¬machine.debugger.Wants machine.exec.id (machine.placeIn id) reason) :
    runStep reentry machine = instruct reentry id (machine.byteUnder id byte)
        (machine.admitting machine.debugger) ∨
      byte = Opcode.breakpoint.byte ∧
        runStep reentry machine =
          .ok (some .suspended) (machine.halted machine.debugger .breakpoint id) := by
  have passes : (machine.admitting machine.debugger).checkStop id machine.exec.pc =
      (false, machine.admitting machine.debugger) := checkStop_of_not_wants exact unwanted
  have other : machine.unprotected.exec.skipBreakpoint ≠ _ := unmarked
  have fetches : Guest.fetch id machine.exec.pc byte machine.unprotected = _ :=
    Guest.fetch_of_asks other passes
  by_cases breaks : (byte = Opcode.breakpoint.byte ∧ machine.debuggerAttached = true ∧
      machine.debugger.isStopped = false) ∧ machine.breakpoints.lookup (id, machine.exec.pc) ≠ none
  · obtain ⟨⟨stands, attached, running⟩, known⟩ := breaks
    obtain ⟨run, recorded⟩ := Option.ne_none_iff_exists'.mp known
    exact .inr ⟨stands, runStep_of_halts faces
      (fetches.trans (Guest.bytes_of_breaks stands recorded attached running))⟩
  · refine .inl (runStep_of_bytes faces fetches fun stands attached known => .inr ?_)
    by_contra running
    exact breaks ⟨⟨stands, attached, Bool.eq_false_iff.mpr running⟩, known⟩

end

end

end Host

/-! ## Marks -/

namespace Machine

variable {before after machine : Machine}

/-- Whether the running execution has no mark, unless something has been stopped. -/
def Unmarked (machine : Machine) : Prop :=
  machine.debugger.isStopped = true ∨ ∀ place, ¬machine.Marks machine.exec.id place

/-- Whether nothing that waits has a mark under the id of the running execution, unless
something has been stopped. -/
def Lone (machine : Machine) : Prop :=
  machine.debugger.isStopped = true ∨
    ∀ exec ∈ machine.parked, exec.id = machine.exec.id → exec.skipBreakpoint = none

theorem Unmarked.skipBreakpoint_eq (unmarked : machine.Unmarked)
    (running : machine.debugger.isStopped = false) : machine.exec.skipBreakpoint = none := by
  have clean := unmarked.resolve_left (by rw [running]; exact Bool.false_ne_true)
  cases mark : machine.exec.skipBreakpoint with
  | none => rfl
  | some place => exact (clean place ⟨machine.exec, .head _, rfl, mark⟩).elim

theorem Unmarked.lone (unmarked : machine.Unmarked) : machine.Lone := by
  refine unmarked.imp_right fun clean exec waits same => ?_
  cases mark : exec.skipBreakpoint with
  | none => rfl
  | some place => exact (clean place ⟨exec, .tail _ waits, same, mark⟩).elim

theorem Lone.unmarked (lone : machine.Lone) (mark : machine.exec.skipBreakpoint = none) :
    machine.Unmarked := by
  refine lone.imp_right fun alone place => ?_
  rintro ⟨exec, member, same, marked⟩
  rcases List.mem_cons.mp member with rfl | waits
  · rw [mark] at marked
    cases marked
  · rw [alone exec waits same] at marked
    cases marked

theorem Reports.unmarked (reports : before.Reports after) (unmarked : before.Unmarked) :
    after.Unmarked := by
  rcases unmarked with stopped | clean
  · exact .inl (reports.debugger.stopped stopped ▸ stopped)
  · refine reports.marks.imp_right fun within place marks => clean place ?_
    rw [← reports.id]
    exact within _ _ marks

theorem Inside.lone (inside : before.Inside after) (lone : before.Lone) : after.Lone := by
  rw [Lone, inside.debugger, inside.parked, inside.id]
  exact lone

end Machine

namespace Host

variable {reentry : Reentry} {machine after : Machine}

/-- What is no instruction ends the slice with an error. -/
theorem runStep_of_lost (reentry : Reentry) (clear : machine.exec.pendingException = none)
    (lost : ∀ id byte, ¬machine.Faces id byte) :
    ∃ error after, runStep reentry machine = .error error after := by
  have fails : ∃ error, Guest.step reentry machine.unprotected =
      .error (.fatal error) machine.unprotected := by
    simp only [Guest.step, bind, EStateM.bind, run_get]
    rw [show machine.unprotected.exec = machine.exec from rfl]
    cases current : machine.exec.method with
    | none => exact ⟨_, rfl⟩
    | some id =>
        dsimp only
        rw [show (machine.unprotected.method id).code.elim #[] (·.bytecode) = machine.bytecode id
          from rfl]
        cases there : (machine.bytecode id)[machine.exec.pc.toNat]? with
        | none =>
            simp only [Bytecode.byte, there, Guest.ofDecode]
            exact ⟨_, rfl⟩
        | some byte => exact (lost id byte ⟨current, there, clear⟩).elim
  obtain ⟨error, fails⟩ := fails
  rw [runStep_of_clear clear]
  simp only [bind, EStateM.bind, attempt, fails]
  exact ⟨_, _, rfl⟩

/-- What an instruction has been that did not fail. -/
inductive Went (reentry : Reentry) (machine : Machine) (outcome : Option SliceOutcome)
    (after : Machine) : Prop
  /-- An object that was kept back has been thrown on. -/
  | unwound {ref : Ref} (kept : machine.exec.pendingException = some ref)
      (ran : unwindOn ref machine.unprotected.released = .ok outcome after)
  /-- The debugger has stopped the execution before the instruction. -/
  | stopped {id : MethodId} {reason : StopReason} {debugger : Debugger}
      (current : machine.exec.method = some id) (clear : machine.exec.pendingException = none)
      (precedes : reason.precedes = true)
      (reported : debugger.stopped = some (machine.stopAt reason id machine.exec.pc))
      (suspended : outcome = some .suspended)
      (same : after = (machine.unprotected.marked debugger
        (some (id, machine.exec.pc))).countStep)
  /-- The instruction has run. -/
  | ran {id : MethodId} {run : UInt8} {debugger : Debugger}
      (keeps : machine.debugger.Keeps debugger)
      (ran : instruct reentry id run (machine.admitting debugger) = .ok outcome after)

variable {reentry : Reentry} {machine after : Machine} {outcome : Option SliceOutcome}

theorem went_of_runStep (ran : runStep reentry machine = .ok outcome after) :
    Went reentry machine outcome after := by
  cases kept : machine.exec.pendingException with
  | some ref => exact .unwound kept ((runStep_of_kept kept).symm.trans ran)
  | none =>
      by_cases lost : ∀ id byte, ¬machine.Faces id byte
      · obtain ⟨error, left, fails⟩ := runStep_of_lost reentry kept lost
        cases fails.symm.trans ran
      · simp only [not_forall, not_not] at lost
        obtain ⟨id, byte, faces⟩ := lost
        have tells : Moves reporting.moves (Guest.fetch id machine.exec.pc byte)
            machine.unprotected fun _ _ => True :=
          Course.follows_fetch id machine.exec.pc byte machine.unprotected trivial
        have ends := Guest.ends_fetch_debugged id machine.exec.pc byte machine.unprotected
        cases fetches : Guest.fetch id machine.exec.pc byte machine.unprotected with
        | error raised left =>
            have reports := ends_of_error fetches tells
            obtain ⟨debugger, -, rfl, rfl⟩ := ends_of_error fetches ends
            exact .ran reports.debugger ((runStep_of_strays faces fetches).symm.trans ran)
        | ok fetched left =>
            have reports := (ends_of_ok fetches tells).1
            obtain ⟨debugger, ⟨rfl, -, ⟨reason, precedes, reported⟩, rfl⟩ | ⟨run, rfl, -, rfl⟩⟩ :=
              ends_of_ok fetches ends
            · cases (runStep_of_halts faces fetches).symm.trans ran
              exact .stopped faces.current kept precedes reported rfl rfl
            · exact .ran reports.debugger ((runStep_of_runs faces fetches).symm.trans ran)

end Host

/-! ## What a stop leaves -/

/-- Whether an execution waits where it was stopped: before an instruction, which is marked, or
with the object that it was about to throw. -/
structure Execution.StoppedAt (exec : Execution) (stop : StopEvent) : Prop where
  id : exec.id = stop.exec
  method : exec.method = some stop.method
  pc : exec.pc = stop.pc
  depth : exec.depth = stop.depth
  marks : if stop.reason.precedes = true then
      exec.pendingException = none ∧ exec.skipBreakpoint = some (stop.method, stop.pc)
    else exec.pendingException.isSome ∧ exec.skipBreakpoint = none

namespace Machine

/-- Whether a machine has stopped its running execution. -/
structure StoppedAt (machine : Machine) (stop : StopEvent) : Prop where
  reported : machine.debugger.stopped = some stop
  line : stop.line = (machine.method stop.method).lineOf stop.pc
  exec : machine.exec.StoppedAt stop

variable {machine : Machine}

theorem Lone.unmarked_admitting (lone : machine.Lone) {debugger : Debugger}
    (keeps : machine.debugger.Keeps debugger) : (machine.admitting debugger).Unmarked := by
  refine Lone.unmarked ?_ rfl
  exact lone.imp_left fun stopped => keeps.stopped stopped ▸ stopped

/-- Whether no mark outlasts the next instruction. -/
structure Poised (machine : Machine) : Prop where
  lone : machine.Lone
  single : machine.exec.pendingException = none ∨ machine.exec.skipBreakpoint = none

end Machine

theorem Reentry.Reporting.follows_instruct {reentry : Reentry} (tells : reentry.Reporting)
    (id : MethodId) (run : UInt8) : reporting.Follows (Host.instruct reentry id run) :=
  .get_bind fun _ => (Course.follows_executeByte tells.admits _ _ _ _).attempt.bind
    Course.follows_afterStep

namespace Host

variable {reentry : Reentry} {machine after : Machine} {outcome : Option SliceOutcome}

/-- Throwing on is about the running execution alone. -/
theorem inside_of_unwindOn {ref : Ref} (ran : unwindOn ref machine = .ok outcome after) :
    outcome = none ∧ machine.Inside after := by
  have blind : Blind machine.around (unwind ref) :=
    blind_ofGuest (Guest.blind_unwind (fun busy => busy) ref)
  have hidden := BlindAt.ends_hidden machine.veil_around (.of_blind blind machine.covers_around)
  cases unwinds : unwind ref machine with
  | error error left =>
      simp only [unwindOn, bind, EStateM.bind, unwinds] at ran
      cases ran
  | ok value left =>
      rw [unwindOn, bind_of_ok unwinds] at ran
      cases ran
      have left := ends_of_ok unwinds hidden
      exact ⟨rfl, inside_of_hidden left.1 left.2⟩

theorem inside_released (machine : Machine) : machine.Inside machine.unprotected.released :=
  (machine.inside_modifyHeap _).trans
    (inside_modifyExec _ rfl fun _ marked => marked)

/-- An object that is thrown stops its execution with the object kept, if at all. -/
theorem stoppedAt_of_thrown {ref : Ref} (unmarked : machine.Unmarked)
    (ran : afterStep (.error (.exception ref)) machine = .ok (some .suspended) after) :
    ∃ stop, after.StoppedAt stop := by
  rw [afterStep_exception] at ran
  obtain ⟨debugger, -, ⟨stops, own, className, message, current, running, reported⟩ | passes⟩ :=
    machine.countStep.stopOnThrow_cases ref
  · rw [stops] at ran
    cases ran
    exact ⟨_, reported, rfl, rfl, current, rfl, rfl, rfl, unmarked.skipBreakpoint_eq running⟩
  · rw [passes] at ran
    have unwinds : unwindOn ref { machine.countStep with debugger } =
        .ok (some .suspended) after := ran
    cases (inside_of_unwindOn unwinds).1

/-- An execution that its own instruction stops is stopped at an exception. -/
theorem stoppedAt_of_instruct (tells : reentry.Reporting) (unmarked : machine.Unmarked)
    {id : MethodId} {run : UInt8}
    (ran : instruct reentry id run machine = .ok (some .suspended) after) :
    ∃ stop, after.StoppedAt stop := by
  have follows := Course.follows_executeByte tells.admits id (machine.bytecode id)
    machine.exec.pc run machine trivial
  have goes : Guest.ReturnsIdle False True
      (Guest.executeByte reentry id (machine.bytecode id) machine.exec.pc run) :=
    Guest.ReturnsIdle.executeByte reentry id (machine.bytecode id) machine.exec.pc run
  simp only [instruct, bind, EStateM.bind, run_get, attempt] at ran
  cases executed :
    Guest.executeByte reentry id (machine.bytecode id) machine.exec.pc run machine with
  | ok ended left =>
      rw [executed] at ran
      have ran : afterStep (.ok ended) left = .ok (some .suspended) after := ran
      cases ended with
      | next =>
          rw [afterStep_next] at ran
          split at ran
          · cases asleep : left.exec.wakeAt <;> rw [asleep] at ran <;> cases ran
          · cases ran
      | blocked | returned => cases ran
      | suspended => exact ((ends_of_ok executed (goes machine)).2.1 rfl).elim
  | error raised left =>
      rw [executed] at ran
      cases raised with
      | fatal error => cases ran
      | exception ref =>
          have reports := ends_of_error executed follows
          exact stoppedAt_of_thrown (Reports.unmarked reports unmarked) ran

/-- Where what was run before is known to be unmarked, what follows is. -/
theorem Went.unmarked (went : Went reentry machine outcome after) (tells : reentry.Reporting)
    (poised : machine.Poised) : after.Unmarked := by
  cases went with
  | unwound kept ran =>
      have unmarked := poised.lone.unmarked
        (poised.single.resolve_left (by rw [kept]; exact Option.some_ne_none _))
      exact (Reports.of_inside ((inside_released machine).trans
        (inside_of_unwindOn ran).2)).unmarked unmarked
  | stopped _ _ _ reported _ same =>
      rw [same]
      exact .inl (Debugger.isStopped_of_eq reported)
  | ran keeps ran =>
      have reports := (ends_of_ok ran (tells.follows_instruct _ _ _ trivial)).1
      exact Reports.unmarked reports (poised.lone.unmarked_admitting keeps)

theorem Went.lone (went : Went reentry machine outcome after) (tells : reentry.Reporting)
    (lone : machine.Lone) : after.Lone := by
  cases went with
  | unwound kept ran => exact ((inside_released machine).trans (inside_of_unwindOn ran).2).lone lone
  | stopped _ _ _ reported _ same =>
      rw [same]
      exact .inl (Debugger.isStopped_of_eq reported)
  | ran keeps ran =>
      have reports := (ends_of_ok ran (tells.follows_instruct _ _ _ trivial)).1
      exact (Reports.unmarked reports (lone.unmarked_admitting keeps)).lone

/-- An instruction that ends with a stop has its execution wait at the stop. -/
theorem Went.stoppedAt (went : Went reentry machine (some .suspended) after)
    (tells : reentry.Reporting) (lone : machine.Lone) : ∃ stop, after.StoppedAt stop := by
  cases went with
  | unwound kept ran => cases (inside_of_unwindOn ran).1
  | stopped current clear precedes reported _ same =>
      rw [same]
      refine ⟨_, reported, rfl, rfl, current, rfl, rfl, ?_⟩
      exact (if_pos precedes).mpr ⟨clear, rfl⟩
  | ran keeps ran => exact stoppedAt_of_instruct tells (lone.unmarked_admitting keeps) ran

end Host

end Jvm
