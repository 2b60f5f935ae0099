import Jvm.Proofs.Debugging.Patching
import Jvm.Proofs.Machine.Courses
import Jvm.Proofs.Debugging.Driving

/-!
# A machine without its debugger

Before an instruction the debugger stops the execution or lets the instruction run, and it
changes no more than its own state and the mark of the instruction to run next. What is left
of a debugged machine when its debugger and its breakpoints are hidden is a plain one, its
shadow. The debugger may do as it likes and the shadow is the same, and what is done to the
rest of both machines leaves the one the shadow of the other.
-/

namespace Jvm

open Machine

namespace Machine

theorem checkStop_of_detached {machine : Machine} (detached : machine.debuggerAttached = false)
    (id : MethodId) (pc : UInt32) : machine.checkStop id pc = (false, machine) := by
  rw [checkStop, detached, Bool.false_and, if_neg Bool.false_ne_true]

end Machine

namespace Guest

/-! ## What the debugger does -/

/-- The byte that runs at a pc where a byte stands: the one under a breakpoint, if it is one. -/
def plainByte (breakpoints : Breakpoints) (id : MethodId) (pc : UInt32) (byte : UInt8) :
    Option UInt8 :=
  if byte = Opcode.breakpoint.byte then breakpoints.lookup (id, pc) else some byte

section

variable (id : MethodId) (pc : UInt32) (byte : UInt8) (machine : Machine)

/-- What the debugger lets an instruction run as, or that it stops before it. -/
def Fetched (fetched : Option UInt8) (after : Machine) : Prop :=
  ∃ debugger, (fetched = none ∧ machine.exec.skipBreakpoint ≠ some (id, pc) ∧
      (∃ reason : StopReason, reason.precedes = true ∧
        debugger.stopped = some (machine.stopAt reason id pc)) ∧
      after = machine.marked debugger (some (id, pc))) ∨
    ∃ run, fetched = some run ∧ plainByte machine.breakpoints id pc byte = some run ∧
      after = machine.marked debugger none

/-- A byte that nothing is recorded for is that of a breakpoint that nobody set. -/
def Unrecorded (raised : Throw) (after : Machine) : Prop :=
  ∃ debugger, plainByte machine.breakpoints id pc byte = none ∧
    raised = .fatal (.unknownOpcode Opcode.breakpoint.byte (machine.methodLabel id) pc) ∧
    after = machine.marked debugger none

theorem ends_bytes (debugger : Debugger) {resumed : Bool}
    (marks : resumed = false → machine.exec.skipBreakpoint ≠ some (id, pc)) :
    Ends (if byte = Opcode.breakpoint.byte then underBreakpoint id pc resumed
      else pure (some byte)) (machine.marked debugger none) (Fetched id pc byte machine)
      (Unrecorded id pc byte machine) := by
  split
  next stands =>
      have recorded : plainByte machine.breakpoints id pc byte =
          machine.breakpoints.lookup (id, pc) := if_pos stands
      rw [underBreakpoint, ends_bind, ends_get]
      rw [show (machine.marked debugger none).breakpoint? id pc =
        machine.breakpoints.lookup (id, pc) from rfl, ← recorded]
      cases run : plainByte machine.breakpoints id pc byte with
      | none => exact ends_throw.mpr ⟨debugger, run, rfl, rfl⟩
      | some run' =>
          dsimp only
          split
          · exact ends_pure.mpr ⟨debugger, .inr ⟨run', rfl, run, rfl⟩⟩
          next asks =>
              rw [ends_bind, ends_modifyGet]
              have unmarked : resumed = false := by
                cases resumed with
                | false => rfl
                | true => exact absurd (Bool.or_true _) asks
              obtain ⟨later, -, ⟨stops, reported⟩ | passes⟩ :=
                (machine.marked debugger none).stopBefore_cases .breakpoint id pc
              · rw [stops]
                exact ends_pure.mpr ⟨later, .inl ⟨rfl, marks unmarked, ⟨_, rfl, reported⟩, rfl⟩⟩
              · rw [passes]
                exact ends_pure.mpr ⟨later, .inr ⟨run', rfl, run, rfl⟩⟩
  next other => exact ends_pure.mpr ⟨debugger, .inr ⟨byte, rfl, if_neg other, rfl⟩⟩

/-- The mark is taken, whatever instruction it is of. -/
theorem takeResumed_eq : takeResumed id pc machine =
    .ok (machine.exec.skipBreakpoint == some (id, pc)) (machine.marked machine.debugger none) := by
  simp only [takeResumed, bind, EStateM.bind, run_get]
  cases mark : machine.exec.skipBreakpoint with
  | none =>
      have same : machine.marked machine.debugger none = machine := by
        rw [marked, modifyExec, ← mark]
      rw [same]
      rfl
  | some place => rfl

/-- The debugger stops before an instruction that is not marked, or the instruction runs. -/
theorem ends_fetch_debugged : Ends (fetch id pc byte) machine (Fetched id pc byte machine)
    (Unrecorded id pc byte machine) := by
  have unmarked : (machine.exec.skipBreakpoint == some (id, pc)) = false →
      machine.exec.skipBreakpoint ≠ some (id, pc) := beq_eq_false_iff_ne.mp
  rw [fetch, ends_bind]
  refine Ends.of_ok (takeResumed_eq id pc machine) ?_
  generalize (machine.exec.skipBreakpoint == some (id, pc)) = resumed at unmarked
  cases resumed with
  | true => exact ends_bytes id pc byte machine machine.debugger unmarked
  | false =>
      rw [if_pos (by rfl), ends_bind, ends_modifyGet]
      obtain ⟨later, -, ⟨stops, reported⟩ | passes⟩ :=
        (machine.marked machine.debugger none).checkStop_cases id pc
      · rw [stops]
        exact ends_pure.mpr ⟨later, .inl ⟨rfl, unmarked rfl, reported, rfl⟩⟩
      · rw [passes]
        exact ends_bytes id pc byte machine later unmarked

end

end Guest

/-- Whether a veil hides a debugger and its breakpoints. -/
structure Veil.Undebugs (breakpoints : Breakpoints) (veil : Veil) : Prop where
  recoding : veil.recoding = breakpoints.restoring
  skips : veil.skips = fun _ => none
  attached : veil.debuggerAttached = false
  breakpoints : veil.breakpoints = []

/-- The veil that shows a plain machine in the place of a debugged one. -/
def Veil.hiding (breakpoints : Breakpoints) (debugged plain : Machine) : Veil where
  config := plain.config
  executed := plain.executed
  slept := plain.slept
  nextExec := plain.nextExec
  guestThreads := plain.guestThreads
  debugger := plain.debugger
  debuggerAttached := plain.debuggerAttached
  breakpoints := plain.breakpoints
  recoding := breakpoints.restoring
  delay := fun instant => instant - debugged.now + plain.now
  skips := fun _ => none
  exec := debugged.exec.id
  parked := debugged.parked
  completed := debugged.completed
  clocked := False
  steady := False
  clear := True
  busy := False

/-- The veil that shows a machine with its breakpoints as it is. -/
def Veil.stamped (breakpoints : Breakpoints) (machine : Machine) (steady : Prop) : Veil :=
  { Veil.of machine steady with recoding := breakpoints.stamping }

namespace Machine

/-- What an execution is run with: the settings, its id, and the executions and the results
that wait. -/
def setting (machine : Machine) : Config × ExecId × List Execution × List (ExecId × Value) :=
  (machine.config, machine.exec.id, machine.parked, machine.completed)

/-- Whether a machine is what is left of a debugged one when its debugger is hidden. No
exception is kept back. -/
structure Shadows (breakpoints : Breakpoints) (debugged plain : Machine) : Prop where
  veiled : ∃ veil, Veil.Undebugs breakpoints veil ∧ debugged.veil veil = plain
  restores : breakpoints.restoring.EndsAt debugged.registry.size
  stamps : breakpoints.stamping.EndsAt debugged.registry.size
  records : debugged.breakpoints = breakpoints
  stamped : debugged.registry.recode breakpoints.stamping = debugged.registry
  clear : debugged.exec.pendingException = none
  configured : debugged.config = plain.config

variable {breakpoints : Breakpoints} {debugged plain : Machine}

theorem veil_stamped (stamped : debugged.registry.recode breakpoints.stamping = debugged.registry)
    (steady : Prop) : debugged.veil (.stamped breakpoints debugged steady) = debugged := by
  have exec : debugged.exec.veil (.stamped breakpoints debugged steady) = debugged.exec := by
    simp only [Execution.veil, Veil.stamped, Veil.of, Option.map_id, id_eq, Option.bind_fun_some]
  simp only [veil, exec]
  simp only [Veil.stamped, Veil.of, stamped]

namespace Shadows

variable (shadows : Shadows breakpoints debugged plain)

include shadows

theorem hides (awake : debugged.exec.wakeAt = none) :
    debugged.veil (.hiding breakpoints debugged plain) = plain := by
  obtain ⟨veil, undebugs, rfl⟩ := shadows.veiled
  have exec : debugged.exec.veil (.hiding breakpoints debugged (debugged.veil veil)) =
      debugged.exec.veil veil := by
    simp only [Execution.veil, Veil.hiding, awake, undebugs.skips, Option.map_none]
  have same : (Veil.hiding breakpoints debugged (debugged.veil veil)).recoding = veil.recoding :=
    undebugs.recoding.symm
  simp only [Machine.veil] at exec same ⊢
  rw [exec, same]
  rfl

theorem covers : (Veil.hiding breakpoints debugged plain).Covers debugged := by
  refine ⟨shadows.restores, rfl, rfl, rfl, ⟨False.elim, fun pause => ?_⟩, False.elim,
    fun _ => shadows.clear, False.elim⟩
  have clock : plain.clock = debugged.clock := by
    obtain ⟨veil, -, rfl⟩ := shadows.veiled
    rfl
  change debugged.now + pause - debugged.now + plain.now =
    debugged.clock.elapsed plain.executed + plain.slept + pause
  rw [← clock, ← Machine.now]
  rw [Nat.add_sub_cancel_left, Nat.add_comm]

theorem covers_stamped {steady : Prop} (unasked : steady → debugged.Unasked) :
    (Veil.stamped breakpoints debugged steady).Covers debugged :=
  ⟨shadows.stamps, rfl, rfl, rfl, ⟨fun _ => ⟨rfl, rfl⟩, fun _ => rfl⟩, unasked, id, False.elim⟩

theorem detached : plain.debuggerAttached = false := by
  obtain ⟨veil, undebugs, rfl⟩ := shadows.veiled
  exact undebugs.attached

theorem clean : plain.breakpoints = [] := by
  obtain ⟨veil, undebugs, rfl⟩ := shadows.veiled
  exact undebugs.breakpoints

theorem unmarked : plain.exec.skipBreakpoint = none := by
  obtain ⟨veil, undebugs, rfl⟩ := shadows.veiled
  rw [exec_veil, Execution.veil, undebugs.skips]
  exact Option.bind_fun_none _

theorem undebugs : Veil.Undebugs breakpoints (.hiding breakpoints debugged plain) :=
  ⟨rfl, rfl, shadows.detached, shadows.clean⟩

theorem heap_eq : debugged.heap = plain.heap := by
  obtain ⟨veil, -, rfl⟩ := shadows.veiled
  rfl

theorem terminated_eq : debugged.terminated = plain.terminated := by
  obtain ⟨veil, -, rfl⟩ := shadows.veiled
  rfl

theorem yieldRequested_eq : debugged.yieldRequested = plain.yieldRequested := by
  obtain ⟨veil, -, rfl⟩ := shadows.veiled
  rfl

theorem method_eq : debugged.exec.method = plain.exec.method := by
  obtain ⟨veil, -, rfl⟩ := shadows.veiled
  rfl

theorem pc_eq : debugged.exec.pc = plain.exec.pc := by
  obtain ⟨veil, -, rfl⟩ := shadows.veiled
  rfl

theorem isIdle_eq : debugged.exec.isIdle = plain.exec.isIdle :=
  congrArg Option.isNone shadows.method_eq

theorem pendingException_eq : plain.exec.pendingException = none := by
  obtain ⟨veil, -, rfl⟩ := shadows.veiled
  exact shadows.clear

/-- An execution sleeps on both machines or on neither. -/
theorem isSome_wakeAt : debugged.exec.wakeAt.isSome = plain.exec.wakeAt.isSome := by
  obtain ⟨veil, -, rfl⟩ := shadows.veiled
  exact Option.isSome_map.symm

theorem methodLabel_eq (id : MethodId) : debugged.methodLabel id = plain.methodLabel id := by
  obtain ⟨veil, -, rfl⟩ := shadows.veiled
  exact (debugged.methodLabel_veil id).symm

theorem setting_eq : debugged.setting = plain.setting := by
  rw [setting, shadows.configured]
  obtain ⟨veil, -, same⟩ := shadows.veiled
  rw [← same]
  rfl

/-- What nobody sees through a veil is left as it was. -/
theorem moved {after : Machine} (hidden : (Veil.hiding breakpoints debugged plain).Covers after)
    (kept : (Veil.stamped breakpoints debugged False).Covers after)
    (stays : after.veil (.stamped breakpoints debugged False) = after) :
    Shadows breakpoints after (after.veil (.hiding breakpoints debugged plain)) ∧
      after.setting = debugged.setting := by
  have registry : after.registry.recode breakpoints.stamping = after.registry :=
    congrArg Machine.registry stays
  have config : debugged.config = after.config :=
    (congrArg (fun machine : Machine => machine.config) stays :)
  have records : debugged.breakpoints = after.breakpoints :=
    (congrArg (fun machine : Machine => machine.breakpoints) stays :)
  refine ⟨⟨⟨_, shadows.undebugs, rfl⟩, hidden.1, kept.1, records.symm.trans shadows.records,
    registry, hidden.2.2.2.2.2.2.1 trivial, config.symm.trans shadows.configured⟩, ?_⟩
  obtain ⟨-, id, parked, completed, -⟩ := kept
  rw [setting, setting, ← config, id, parked, completed]
  rfl

/-- A plain machine is its own shadow. -/
theorem own : Shadows [] plain plain := by
  have restores : Breakpoints.restoring [] = Recoding.none := by
    funext cls method bytes
    exact Array.ext_getElem? fun place =>
      (Breakpoints.getElem?_restoring [] cls method place bytes).trans (Option.map_id' ..)
  have stamps : Breakpoints.stamping [] = Recoding.none := by
    funext cls method bytes
    exact Array.ext_getElem? fun place =>
      (Breakpoints.getElem?_stamping [] cls method place bytes).trans (Option.map_id' ..)
  have table := plain.registry.toClassTable.recode_none
  have kept : plain.registry.recode .none = plain.registry := by
    simp only [Registry.recode, Registry.withTable, table]
  refine ⟨⟨{ Veil.of plain True with skips := fun _ => none }, ⟨restores.symm, rfl,
    shadows.detached, shadows.clean⟩, ?_⟩, ?_, ?_, shadows.clean, ?_, shadows.pendingException_eq,
    rfl⟩
  · have exec : plain.exec.veil { Veil.of plain True with skips := fun _ => none } = plain.exec := by
      simp only [Execution.veil, Veil.of, Option.map_id, id_eq, shadows.unmarked, Option.bind_none]
      rw [← shadows.unmarked]
    simp only [veil, exec]
    simp only [Veil.of, kept]
  · rw [restores]
    exact Recoding.endsAt_none _
  · rw [stamps]
    exact Recoding.endsAt_none _
  · rw [stamps, kept]

/-! ## What is done to both machines -/

/-- The debugger may change, and the mark that it sets. -/
theorem marked (debugger : Debugger) (mark : Option (MethodId × UInt32)) :
    Shadows breakpoints (debugged.marked debugger mark) plain := by
  obtain ⟨veil, undebugs, rfl⟩ := shadows.veiled
  refine ⟨⟨veil, undebugs, ?_⟩, shadows.restores, shadows.stamps, shadows.records,
    shadows.stamped, shadows.clear, shadows.configured⟩
  simp only [Machine.veil, Machine.marked, modifyExec, Execution.veil, undebugs.skips,
    Option.bind_fun_none]

theorem withDebugger (debugger : Debugger) :
    Shadows breakpoints { debugged with debugger } plain :=
  shadows.marked debugger debugged.exec.skipBreakpoint

theorem modifyHeap (change : Heap → Heap) :
    Shadows breakpoints (debugged.modifyHeap change) (plain.modifyHeap change) := by
  obtain ⟨veil, undebugs, rfl⟩ := shadows.veiled
  exact ⟨⟨veil, undebugs, rfl⟩, shadows.restores, shadows.stamps, shadows.records,
    shadows.stamped, shadows.clear, shadows.configured⟩

theorem countStep : Shadows breakpoints debugged.countStep plain.countStep := by
  obtain ⟨veil, undebugs, rfl⟩ := shadows.veiled
  refine ⟨⟨{ veil with executed := veil.executed + 1 }, ?_, rfl⟩, shadows.restores,
    shadows.stamps, shadows.records, shadows.stamped, shadows.clear, shadows.configured⟩
  exact ⟨undebugs.recoding, undebugs.skips, undebugs.attached, undebugs.breakpoints⟩

/-- Instructions that the debugger stopped before are counted too. -/
theorem countStep_left : Shadows breakpoints debugged.countStep plain := by
  obtain ⟨veil, undebugs, rfl⟩ := shadows.veiled
  exact ⟨⟨veil, undebugs, rfl⟩, shadows.restores, shadows.stamps, shadows.records,
    shadows.stamped, shadows.clear, shadows.configured⟩

theorem protectResult (value : Value) :
    Shadows breakpoints (debugged.protectResult value) (plain.protectResult value) := by
  rw [protectResult.eq_def, protectResult.eq_def]
  split
  · exact shadows.modifyHeap _
  · exact shadows

theorem unrequested : Shadows breakpoints { debugged with yieldRequested := false }
    { plain with yieldRequested := false } := by
  obtain ⟨veil, undebugs, rfl⟩ := shadows.veiled
  exact ⟨⟨veil, undebugs, rfl⟩, shadows.restores, shadows.stamps, shadows.records,
    shadows.stamped, shadows.clear, shadows.configured⟩

/-- Each machine waits for what its own execution waits for. -/
theorem sleepUntil (instant other : Instant) :
    Shadows breakpoints (debugged.sleepUntil instant) (plain.sleepUntil other) := by
  obtain ⟨veil, undebugs, rfl⟩ := shadows.veiled
  refine ⟨⟨{ veil with slept := ((debugged.veil veil).sleepUntil other).slept }, ?_, ?_⟩,
    shadows.restores, shadows.stamps, shadows.records, shadows.stamped, shadows.clear,
    shadows.configured⟩
  · exact ⟨undebugs.recoding, undebugs.skips, undebugs.attached, undebugs.breakpoints⟩
  · rfl

/-- A slice begins on both machines. -/
theorem beginSlice : Shadows breakpoints (Host.beginSlice debugged) (Host.beginSlice plain) := by
  obtain ⟨veil, undebugs, rfl⟩ := shadows.veiled
  exact ⟨⟨veil, undebugs, rfl⟩, shadows.restores, shadows.stamps, shadows.records,
    shadows.stamped, shadows.clear, shadows.configured⟩

end Shadows

end Machine

end Jvm
