import Jvm.Proofs.Machine.Returns
import Jvm.Proofs.Veiling.Instructions

/-!
# Steps without a debugger

Behind a veil that shows a machine as it is, what guest code does not see is what it was: a
step leaves it alone. Without a debugger the byte at the pc is the one that runs, and where
the step goes on there is a frame to go on in. A step that throws asked for no end of the slice.
-/

namespace Jvm

open Machine

/-- The veil that shows a machine as it is. -/
def Veil.of (machine : Machine) (steady : Prop) : Veil where
  config := machine.config
  executed := machine.executed
  slept := machine.slept
  nextExec := machine.nextExec
  guestThreads := machine.guestThreads
  debugger := machine.debugger
  debuggerAttached := machine.debuggerAttached
  breakpoints := machine.breakpoints
  recoding := .none
  delay := id
  skips := some
  exec := machine.exec.id
  parked := machine.parked
  completed := machine.completed
  clocked := True
  steady := steady
  clear := machine.exec.pendingException = none
  busy := False

namespace Machine

variable {machine : Machine} {steady : Prop}

theorem veil_of (machine : Machine) (steady : Prop) :
    machine.veil (.of machine steady) = machine := by
  have table := machine.registry.toClassTable.recode_none
  have exec : machine.exec.veil (.of machine steady) = machine.exec := by
    simp only [Execution.veil, Veil.of, Option.map_id, id_eq, Option.bind_fun_some]
  simp only [veil, exec]
  simp only [Veil.of, Registry.recode, Registry.withTable, table]

theorem covers_of (calm : steady → machine.yieldRequested = false ∧ machine.exec.wakeAt = none) :
    (Veil.of machine steady).Covers machine :=
  ⟨Recoding.endsAt_none _, rfl, rfl, rfl, ⟨fun _ => ⟨rfl, rfl⟩, fun _ => rfl⟩, calm, id, False.elim⟩

/-- What guest code does not see is left alone. -/
theorem BlindAt.ends_hidden {ε α : Type} {step : EStateM ε Machine α} {veil : Veil}
    (shown : machine.veil veil = machine) (blind : BlindAt veil step machine) :
    Ends step machine (fun _ after => veil.Covers after ∧ after.veil veil = after)
      fun _ after => veil.Covers after ∧ after.veil veil = after := by
  simp only [BlindAt, Ends, shown] at blind ⊢
  cases ran : step machine with
  | ok value after =>
      simp only [ran, EStateM.Result.ok.injEq, true_and] at blind
      exact ⟨blind.1, blind.2.symm⟩
  | error raised after =>
      simp only [ran, EStateM.Result.error.injEq, true_and] at blind
      exact ⟨blind.1, blind.2.symm⟩

end Machine

namespace Guest

/-- The native that the instruction at the current pc runs, if it runs one. -/
def calledNext : Guest (Option Native) := askedNext none calledBy

end Guest

/-- Whether the next instruction runs no native but admitted ones. -/
def Machine.CallsOnly (admitted : Native → Prop) (machine : Machine) : Prop :=
  machine.exec.pendingException = none →
    Guest.Finds admitted Guest.calledNext (machine.modifyHeap Heap.clearPending)

namespace Guest

variable {veil : Veil} {machine : Machine}

/-! ## Without a debugger -/

section

variable (covers : veil.Covers machine) (detached : machine.debuggerAttached = false)
  (veiled : veil.debuggerAttached = false) (breakpoints : veil.breakpoints = machine.breakpoints)
  (marks : veil.skips = some)

include covers detached veiled breakpoints marks

theorem blindAt_fetch (id : MethodId) (pc : UInt32) (byte : UInt8) :
    BlindAt veil (fetch id pc byte) machine := by
  have resumes : Blind veil (takeResumed id pc) := by
    refine .get_bind (fun machine _ => ?_) fun machine _ => ?_
    · rw [show (machine.veil veil).exec.skipBreakpoint = machine.exec.skipBreakpoint.bind veil.skips
        from rfl, marks, Option.bind_fun_some]
    split
    · exact .pure _
    · refine Overlooks.bind (blind_modifyExec ?_ fun _ => rfl) fun _ => .pure _
      exact fun _ => ⟨rfl, rfl, rfl, fun busy => busy⟩
  have kept : Ends (takeResumed id pc) machine
      (fun _ after => after.debuggerAttached = false ∧ after.breakpoints = machine.breakpoints)
      fun _ _ => True := by
    rw [takeResumed, ends_bind, ends_get]
    split
    · exact ends_pure.mpr ⟨detached, rfl⟩
    · rw [ends_bind, ends_modify]
      exact ends_pure.mpr ⟨detached, rfl⟩
  refine .bind (.of_blind resumes covers) fun resumed after covered ran => ?_
  obtain ⟨off, same⟩ := ends_of_ok ran kept
  have unchecked : ∀ other : Machine, other.debuggerAttached = false →
      other.checkStop id pc = (false, other) := by
    intro other off
    simp only [checkStop, off, Bool.false_and, Bool.false_eq_true, if_false]
  have under : BlindAt veil (underBreakpoint id pc resumed) after := by
    refine BlindAt.get_bind ?_ ?_
    · simp only [breakpoint?, methodLabel_veil, off]
      rw [show (after.veil veil).breakpoints = after.breakpoints from breakpoints.trans same.symm,
        show (after.veil veil).debuggerAttached = false from veiled]
    · split
      · exact .of_blind (blind_fatal _) covered
      · rw [if_pos (by rw [off]; rfl)]
        exact .of_blind (.pure _) covered
  have bytes : BlindAt veil (if byte = Opcode.breakpoint.byte then underBreakpoint id pc resumed
      else pure (some byte)) after := by
    split
    · exact under
    · exact .of_blind (.pure _) covered
  cases resumed with
  | true => exact bytes
  | false =>
      refine BlindAt.bind ?_ fun stopped reached covered ran => ?_
      · have passes : (modifyGet fun machine => machine.checkStop id pc : Guest Bool) after =
            .ok false after := by
          rw [run_modifyGet, unchecked after off]
        refine Ends.of_ok passes ⟨covered, ?_⟩
        rw [run_modifyGet, unchecked (after.veil veil) veiled]
      · rw [run_modifyGet, unchecked after off] at ran
        cases ran
        exact bytes

/-- A step without a debugger, if the native that it runs sees no more. -/
theorem blindAt_step {reentry : Reentry} (refuses : reentry.Refuses) (free : ¬veil.busy)
    (same : veil.recoding = .none) (admits : Finds veil.inFrame.Admits calledNext machine) :
    BlindAt veil (step reentry) machine := by
  rw [Finds, calledNext, askedNext, ends_bind, ends_get] at admits
  refine BlindAt.get_bind ?_ ?_
  · have own : ∀ id, (machine.veil veil).method id = machine.method id := by
      intro id
      rw [method_veil, same]
      exact Method.recode_id _
    simp only [own, exec_veil]
    rfl
  cases current : machine.exec.method with
  | none => exact .of_blind (blind_fault _) covers
  | some id =>
      have running : machine.exec.isIdle = false := by rw [Execution.isIdle, current]; rfl
      simp only [current] at admits
      dsimp only
      generalize (machine.method id).code.elim #[] (·.bytecode) = code at admits ⊢
      cases decoded : Bytecode.byte code machine.exec.pc with
      | error decodeFault =>
          refine .bind (.of_blind (blind_ofDecode id _) covers) fun _ after _ ran => ?_
          exact (ends_of_ok ran (ends_ofDecodeFault id decodeFault machine)).elim
      | ok byte =>
          rw [decoded, ends_bind, ofDecode, ends_pure, ends_bind] at admits
          have fetches := blindAt_fetch (covers.inFrame running) detached veiled breakpoints marks
            id machine.exec.pc byte
          refine BlindAt.bind (.of_blind (.pure byte) covers) fun found after _ ran => ?_
          cases ran
          refine BlindAt.bind (fetches.outOfFrame free) fun fetched after covered ran => ?_
          have admitted := ends_of_ok ran admits
          have framed := (ends_of_ok ran fetches).1
          cases fetched with
          | none => exact .of_blind (.pure _) covered
          | some byte =>
              exact blindAt_executeByte refuses covered (framed.running trivial) admitted free

/-- A step that does not return to the host leaves the execution in a frame. -/
theorem ends_step_running {reentry : Reentry} (refuses : reentry.Refuses)
    (admits : Finds veil.inFrame.Admits calledNext machine) :
    Ends (step reentry) machine
      (fun ended after => (∀ value, ended ≠ .returned value) → after.exec.isIdle = false)
      fun _ _ => True := by
  rw [Finds, calledNext, askedNext, ends_bind, ends_get] at admits
  rw [step, ends_bind, ends_get]
  cases current : machine.exec.method with
  | none => exact ends_throw.mpr trivial
  | some id =>
      have running : machine.exec.isIdle = false := by rw [Execution.isIdle, current]; rfl
      simp only [current] at admits
      dsimp only
      generalize (machine.method id).code.elim #[] (·.bytecode) = code at admits ⊢
      rw [ends_bind] at admits ⊢
      cases decoded : Bytecode.byte code machine.exec.pc with
      | error decodeFault =>
          exact (ends_ofDecodeFault id decodeFault machine).mono (fun _ _ never => never.elim)
            fun _ _ ended => ended
      | ok byte =>
          rw [decoded, ofDecode, ends_pure, ends_bind] at admits
          rw [ofDecode, ends_pure, ends_bind]
          have fetches := blindAt_fetch (covers.inFrame running) detached veiled breakpoints marks
            id machine.exec.pc byte
          refine (Ends.and admits fetches).mono (fun fetched after found => ?_) fun _ _ _ => trivial
          obtain ⟨admitted, covered, -⟩ := found
          have runs : after.exec.isIdle = false := covered.running trivial
          cases fetched with
          | none => exact ends_pure.mpr fun _ => runs
          | some byte => exact ends_executeByte_running refuses covered runs admitted

end

/-! ## Frames to go on in -/

theorem ends_unwindFrames_running (ref : Ref) (thrown : ClassId) (fuel : Nat)
    (trace : List (MethodId × UInt32)) (machine : Machine) :
    Ends (unwindFrames ref thrown fuel trace) machine
      (fun _ after => after.exec.isIdle = false) fun _ _ => True := by
  induction fuel generalizing trace machine with
  | zero => exact ends_throw.mpr trivial
  | succ fuel ih =>
      rw [unwindFrames, ends_bind, ends_get]
      cases current : machine.exec.method with
      | none =>
          simp only [ends_bind, ends_modify]
          exact ends_throw.mpr trivial
      | some id =>
          have running : machine.exec.isIdle = false := by rw [Execution.isIdle, current]; rfl
          have covers : (Veil.of machine False).Covers machine := covers_of False.elim
          dsimp only
          rw [ends_bind]
          refine Ends.mono (blind_findHandler id _ thrown machine (covers.inFrame running)) ?_
            fun _ _ _ => trivial
          rintro found after ⟨covered, -⟩
          cases found with
          | some handlerPc => exact ends_modify.mpr (covered.running trivial)
          | none =>
              simp only [ends_bind, ends_modify]
              exact ih _ _

/-- What is caught is caught in a frame. -/
theorem ends_unwind_running (ref : Ref) (machine : Machine) :
    Ends (unwind ref) machine (fun _ after => after.exec.isIdle = false) fun _ _ => True := by
  rw [unwind, ends_bind, ends_get]
  split
  · exact ends_throw.mpr trivial
  · exact ends_unwindFrames_running _ _ _ _ _

end Guest

/-!
## Requests to end a slice

Two natives ask for the end of the slice: one lets other executions run, the other sleeps as
well. Either does so as the last thing that it does, and an instruction does nothing after
its native that could throw. So an instruction that throws has asked for nothing, and an
execution that sleeps has asked for the end of its slice.
-/

namespace Machine

/-- Whether nothing asks for the end of the slice. -/
def Unasked (machine : Machine) : Prop :=
  machine.yieldRequested = false ∧ machine.exec.wakeAt = none

/-- Whether the execution sleeps only if the end of the slice is asked for. -/
def AsksToSleep (machine : Machine) : Prop :=
  machine.yieldRequested = false → machine.exec.wakeAt = none

theorem Unasked.asksToSleep {machine : Machine} (unasked : machine.Unasked) :
    machine.AsksToSleep := fun _ => unasked.2

end Machine

/-- Whether a step that throws has asked for nothing, nor has one that returns anything but
some values. -/
def AsksLast {ε α : Type} (asking : α → Prop) (step : EStateM ε Machine α) (machine : Machine) :
    Prop :=
  Ends step machine (fun value after => after.AsksToSleep ∧ (asking value ∨ after.Unasked))
    fun _ after => after.Unasked

variable {veil : Veil} {machine : Machine} {ε α β : Type} {asking : α → Prop}

theorem Veil.Covers.unasked (covers : veil.Covers machine) (steady : veil.steady) :
    machine.Unasked :=
  covers.2.2.2.2.2.1 steady

namespace AsksLast

/-- What may ask comes last, but for what never throws. -/
protected theorem bind {asks : β → Prop} {step : EStateM ε Machine β}
    {next : β → EStateM ε Machine α} (first : AsksLast asks step machine)
    (rest : ∀ value after, after.AsksToSleep →
      Ends (next value) after (fun value last => last.AsksToSleep ∧ asking value)
        fun _ _ => False) :
    AsksLast asking (step >>= next) machine :=
  ends_bind.mpr (Ends.mono first
    (fun value after asked => (rest value after asked.1).mono
      (fun _ _ ended => ⟨ended.1, .inl ended.2⟩) fun _ _ never => never.elim)
    fun _ _ unasked => unasked)

/-- A machine is looked at. -/
protected theorem get_bind {next : Machine → EStateM ε Machine α}
    (asks : AsksLast asking (next machine) machine) : AsksLast asking (get >>= next) machine :=
  ends_bind.mpr (ends_get.mpr asks)

variable (steady : veil.steady)

include steady

theorem of_blind {step : EStateM ε Machine α} (blind : Blind veil step)
    (covers : veil.Covers machine) : AsksLast asking step machine :=
  Ends.mono (blind machine covers)
    (fun _ _ ended => ⟨(ended.1.unasked steady).asksToSleep, .inr (ended.1.unasked steady)⟩)
    fun _ _ ended => ended.1.unasked steady

/-- What asks for nothing comes first. -/
theorem after_blind {step : EStateM ε Machine β} {next : β → EStateM ε Machine α}
    (blind : Blind veil step) (covers : veil.Covers machine)
    (rest : ∀ value after, veil.Covers after → step machine = .ok value after →
      AsksLast asking (next value) after) : AsksLast asking (step >>= next) machine := by
  refine ends_bind.mpr (Ends.mono (Ends.and (blind machine covers) (ends_self step machine)) ?_ ?_)
  · exact fun value after ended => rest value after ended.1.1 ended.2
  · exact fun _ _ ended => ended.1.1.unasked steady

end AsksLast

/-! ### Natives -/

variable (steady : veil.steady) (clocked : veil.clocked) (busy : veil.busy)
  {reentry : Reentry} (refuses : reentry.Refuses)

section

include steady

theorem ThreadNative.asksLast_pause (covers : veil.Covers machine) (millis : Int64) :
    AsksLast (fun _ => True) (pause millis) machine := by
  rw [pause]
  split
  · exact .of_blind steady (Guest.blind_raise _ _) covers
  · refine ends_bind.mpr (ends_modify.mpr (ends_pure.mpr ⟨?_, .inl trivial⟩))
    rintro ⟨⟩

include clocked busy refuses

theorem Native.asksLast_run (covers : veil.Covers machine) {native : Native}
    (starts : native ≠ .builtin (.thread .start)) (arguments : NativeArgs) :
    AsksLast (fun _ => True) (native.run reentry arguments) machine := by
  have admitted (admits : veil.Admits native) :
      AsksLast (fun _ => True) (native.run reentry arguments) machine :=
    .of_blind steady (native.blind_run refuses admits arguments) covers
  match native with
  | .builtin (.thread .sleep) => exact ThreadNative.asksLast_pause steady covers _
  | .builtin (.thread .yield) =>
      refine ends_bind.mpr (ends_modify.mpr (ends_pure.mpr ⟨?_, .inl trivial⟩))
      exact fun unasked => nomatch unasked
  | .builtin (.thread .start) => exact absurd rfl starts
  | .builtin (.thread .isAlive) | .builtin (.thread .currentThread) => exact admitted trivial
  | .builtin (.system .nanoTime) | .builtin (.system .currentTimeMillis) => exact admitted clocked
  | .builtin (.system .arraycopy) | .builtin (.system .identityHashCode)
  | .builtin (.system .gc) => exact admitted trivial
  | .builtin (.object _) | .builtin (.string _) | .builtin (.cls _) | .builtin (.math _)
  | .builtin (.float _) | .builtin (.double _) | .builtin (.printStream _) => exact admitted trivial
  | .host _ => exact admitted busy

end

namespace Guest

/-! ### Instructions -/

theorem yieldRequested_releaseLock (lock : Option Lock) (machine : Machine) :
    (releaseLock lock machine).yieldRequested = machine.yieldRequested := by
  cases lock with
  | none => rfl
  | some lock =>
      rw [releaseLock, Machine.exitLock]
      split
      · cases lock <;> rfl
      · rfl

theorem exec_releaseLock (lock : Option Lock) (machine : Machine) :
    (releaseLock lock machine).exec = machine.exec := by
  cases lock with
  | none => rfl
  | some lock => exact machine.exec_exitLock lock

include steady clocked busy refuses

section

variable (covers : veil.Covers machine)

include covers

theorem asksLast_callNative {id : MethodId}
    (starts : Ends (bindNative id) machine
      (fun native _ => native ≠ .builtin (.thread .start)) fun _ _ => True) :
    AsksLast (fun _ => True) (callNative reentry id) machine := by
  refine .after_blind steady (blind_bindNative id) covers fun native bound covered ran => ?_
  have other := ends_of_ok ran starts
  refine AsksLast.get_bind ?_
  dsimp only
  split
  · exact .of_blind steady (blind_fault _) covered
  · refine (Native.asksLast_run steady clocked busy refuses covered other _).bind ?_
    exact fun _ _ asks => ends_bind.mpr (ends_modify.mpr (ends_pure.mpr ⟨asks, trivial⟩))

theorem asksLast_invoke {id : MethodId}
    (starts : Finds (· ≠ .builtin (.thread .start)) (called id) machine)
    (callerPc returnPc : UInt32) :
    AsksLast (· = .next) (invoke reentry id callerPc returnPc) machine := by
  rw [Finds, called, ends_bind, ends_get] at starts
  refine AsksLast.get_bind ?_
  dsimp only
  split
  next => exact .of_blind steady (blind_raise _ _) covers
  next concrete =>
  rw [if_neg concrete, ends_bind] at starts
  refine .after_blind steady (blind_takeLock _) covers fun taken held covered ran => ?_
  have other := ends_of_ok ran starts
  split
  next => exact .of_blind steady (.pure _) covered
  next entered =>
  rw [if_neg entered] at other
  split
  next native =>
      rw [if_pos native, ends_bind] at other
      have calls : AsksLast (fun _ => True) (callNative reentry id) held :=
        asksLast_callNative steady clocked busy refuses covered
          (Ends.mono other (fun own _ found => ends_pure.mp found own rfl) fun _ _ _ => trivial)
      have released : AsksLast (fun _ => True) (onThrow (callNative reentry id)
          (releaseLock (callLock? machine id))) held := by
        simp only [AsksLast, Ends, onThrow] at calls ⊢
        cases ran : callNative reentry id held with
        | ok value after => simpa only [ran] using calls
        | error raised after =>
            simp only [ran] at calls ⊢
            rwa [Unasked, yieldRequested_releaseLock, exec_releaseLock]
      refine released.bind fun value after asks => ?_
      refine ends_bind.mpr (ends_modify.mpr (ends_pure.mpr ⟨?_, rfl⟩))
      intro unasked
      change (releaseLock _ after).yieldRequested = false at unasked
      change (releaseLock _ after).exec.wakeAt = none
      rw [yieldRequested_releaseLock] at unasked
      rw [exec_releaseLock]
      exact asks unasked
  next =>
      exact .of_blind steady ((blind_onThrow (blind_pushFrame _ _ _)
        (fun _ => covers_releaseLock _) fun machine _ => releaseLock_veil _ machine).bind
          fun _ => .pure _) covered

variable {id : MethodId} {pc : UInt32}

theorem asksLast_invokeInstance {mode : CallMode} {index : UInt16}
    (starts : Finds (· ≠ .builtin (.thread .start)) (calledBy id pc (.invoke mode index)) machine)
    (next : UInt32) :
    AsksLast (· = .next) (invokeInstance reentry mode id.owner index pc next) machine := by
  rw [Finds, calledBy, ends_bind] at starts
  refine .after_blind steady (blind_resolveMethod _ _) covers fun resolved linked covered ran => ?_
  have other := ends_of_ok ran starts
  rw [ends_bind, ends_get] at other
  refine AsksLast.get_bind ?_
  dsimp only
  split
  next => exact .of_blind steady (blind_mismatch _) covered
  next =>
  split
  next => exact .of_blind steady (blind_raiseNull _) covered
  next receiver found =>
      simp only [found, ends_bind] at other
      refine .after_blind steady (blind_selectTarget _ _ _) covered
        fun target chosen covered ran => ?_
      have other := ends_of_ok ran other
      exact asksLast_invoke steady clocked busy refuses covered other pc next

theorem asksLast_invokeStatic {index : UInt16}
    (starts : Finds (· ≠ .builtin (.thread .start)) (calledBy id pc (.invokeStatic index)) machine)
    (next : UInt32) :
    AsksLast (· = .next) (invokeStatic reentry id.owner index pc next) machine := by
  rw [Finds, calledBy, ends_bind] at starts
  refine .after_blind steady (blind_resolveMethod _ _) covers fun resolved linked covered ran => ?_
  have other := ends_of_ok ran starts
  rw [ends_bind] at other
  split
  next => exact AsksLast.get_bind (.of_blind steady (blind_mismatch _) covered)
  next =>
      refine .after_blind steady (blind_ensureInitialized _ _) covered
        fun pushed ready covered ran => ?_
      have other := ends_of_ok ran other
      split
      next => exact .of_blind steady (.pure _) covered
      next done =>
          rw [if_neg done] at other
          exact asksLast_invoke steady clocked busy refuses covered other pc next

end

omit busy

variable (covers : veil.Covers machine) (free : ¬veil.busy)
  (running : machine.exec.isIdle = false) {id : MethodId} {pc : UInt32}

include covers free running

theorem asksLast_execute {instr : Instr}
    (starts : Finds (· ≠ .builtin (.thread .start)) (calledBy id pc instr) machine)
    (code : Array UInt8) (next : UInt32) :
    AsksLast (· = .next) (execute reentry id code pc next instr) machine := by
  have framed := covers.inFrame running
  have still : veil.inFrame.steady := steady
  have timed : veil.inFrame.clocked := clocked
  cases instr with
  | leave kind =>
      cases kind with
      | none => exact .of_blind steady (blind_returnFromFrame free _) covers
      | some kind =>
          exact .of_blind steady ((blind_fromStack _).bind fun _ => blind_returnFromFrame free _)
            covers
  | invoke mode index =>
      exact asksLast_invokeInstance still timed trivial refuses framed starts next
  | invokeStatic index =>
      exact asksLast_invokeStatic still timed trivial refuses framed starts next
  | _ => exact .of_blind steady (blind_execute rfl reentry id code pc next) covers

/-- An instruction that throws or waits has asked for nothing. -/
theorem asksLast_executeByte {code : Array UInt8} {byte : UInt8}
    (starts : Finds (· ≠ .builtin (.thread .start)) (calledAt id code pc byte) machine) :
    AsksLast (· = .next) (executeByte reentry id code pc byte) machine := by
  obtain ⟨decodeFault, same⟩ | ⟨instr, next, same, other⟩ := executeByte_cases starts
  · exact same ▸ .of_blind steady (blind_ofDecodeFault id decodeFault) covers
  · exact same ▸ asksLast_execute steady clocked refuses covers free running other code next

end Guest

end Jvm
