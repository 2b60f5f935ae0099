import Jvm.Proofs.Debugging.Shadowing

/-!
# The shadow of a step

An instruction that starts no thread, reads no clock and no byte under a breakpoint but its
first does the same to a debugged machine and to its shadow. Before each instruction the
debugger stops the execution or lets the instruction run that stands in the code of the
shadow. When it stops, the shadow has done nothing, and the instruction is marked to run
without another stop.
-/

namespace Jvm

open Machine

/-- Whether a native neither starts a thread nor reads the clock. -/
def Native.isTimeless : Native → Bool
  | .builtin (.thread .start) | .builtin (.system .nanoTime)
  | .builtin (.system .currentTimeMillis) => false
  | _ => true

/-- Whether the code of a method differs from other code in bytes under breakpoints only. -/
def Breakpoints.Spares (breakpoints : Breakpoints) (id : MethodId) (code other : Array UInt8) :
    Prop :=
  ∀ place, breakpoints.byteAt? id.owner.index id.index.toNat place = none →
    other[place]? = code[place]?

/-- The code of a method. -/
def Machine.bytecode (machine : Machine) (id : MethodId) : Array UInt8 :=
  (machine.method id).code.elim #[] (·.bytecode)

/-- Where an execution is. -/
def Execution.place? (exec : Execution) : Option (MethodId × UInt32) :=
  exec.method.map fun id => (id, exec.pc)

namespace Guest

/-- Whether the next instruction reads no byte under a breakpoint but its first: it is the
same one, and does the same, whatever those bytes are. -/
def Unread (reentry : Reentry) (breakpoints : Breakpoints) (machine : Machine) : Prop :=
  ∀ ⦃id byte other⦄, machine.exec.method = some id →
    (machine.bytecode id)[machine.exec.pc.toNat]? = some byte →
    breakpoints.Spares id (machine.bytecode id) other →
      (∀ opcode, Opcode.ofByte byte = some opcode →
        Instr.decode other machine.exec.pc opcode =
          Instr.decode (machine.bytecode id) machine.exec.pc opcode) ∧
      executeByte reentry id other machine.exec.pc byte machine =
        executeByte reentry id (machine.bytecode id) machine.exec.pc byte machine

/-- An instruction that is decoded the same whatever the bytes under breakpoints are, and that
looks at its code no further. -/
theorem unread_of_decode {reentry : Reentry} {breakpoints : Breakpoints} {machine : Machine}
    {id : MethodId} {byte : UInt8} {opcode : Opcode} {instr : Instr} {next : UInt32}
    (current : machine.exec.method = some id)
    (there : (machine.bytecode id)[machine.exec.pc.toNat]? = some byte)
    (known : Opcode.ofByte byte = some opcode)
    (decodes : ∀ {other}, breakpoints.Spares id (machine.bytecode id) other →
      Instr.decode other machine.exec.pc opcode = .ok (instr, next))
    (heedless : ∀ code other, execute reentry id code machine.exec.pc next instr =
      execute reentry id other machine.exec.pc next instr) :
    Unread reentry breakpoints machine := by
  intro id' byte' other current' there' spares
  cases current.symm.trans current'
  cases there.symm.trans there'
  have here : Instr.decode (machine.bytecode id) machine.exec.pc opcode = .ok (instr, next) :=
    decodes fun _ _ => rfl
  have same : ∀ opcode', Opcode.ofByte byte = some opcode' →
      Instr.decode other machine.exec.pc opcode' =
        Instr.decode (machine.bytecode id) machine.exec.pc opcode' := by
    intro opcode' known'
    cases known.symm.trans known'
    rw [decodes spares, here]
  refine ⟨same, ?_⟩
  simp only [executeByte, known, decodes spares, here]
  exact congrFun (heedless _ _) machine

variable {breakpoints : Breakpoints} {debugged plain : Machine} {reentry : Reentry}

/-! ## Instructions -/

/-- The machines that a step leaves in the place of a machine and its shadow. -/
structure Leaves (breakpoints : Breakpoints) (debugged after left : Machine) : Prop where
  shadows : Shadows breakpoints after left
  setting : after.setting = debugged.setting

/-- What sees nothing of what is veiled is done to the shadow as well, and asks for nothing. -/
theorem ends_of_blind_shadow {ε α : Type} {step : EStateM ε Machine α}
    (blind : ∀ veil : Veil, ¬veil.busy → Blind veil step)
    (shadows : Shadows breakpoints debugged plain) (unasked : debugged.Unasked) :
    Ends step debugged
      (fun value after => (∃ left, Leaves breakpoints debugged after left ∧
        step plain = .ok value left) ∧ after.Unasked)
      fun raised after => (∃ left, Leaves breakpoints debugged after left ∧
        step plain = .error raised left) ∧ after.Unasked := by
  have hides := shadows.hides unasked.2
  have hidden := blind (.hiding breakpoints debugged plain) not_false debugged shadows.covers
  have kept := fun steady => blind (.stamped breakpoints debugged steady) not_false debugged
    (shadows.covers_stamped fun _ => unasked)
  have still (steady : Prop) : debugged.veil (.stamped breakpoints debugged steady) = debugged :=
    veil_stamped shadows.stamped steady
  simp only [Ends, hides, still] at hidden kept ⊢
  cases ran : step debugged with
  | ok value after =>
      simp only [ran, EStateM.Result.ok.injEq, true_and] at hidden kept ⊢
      obtain ⟨moved, setting⟩ := shadows.moved hidden.1 (kept False).1 (kept False).2.symm
      exact ⟨⟨_, ⟨moved, setting⟩, hidden.2⟩, (kept True).1.unasked trivial⟩
  | error raised after =>
      simp only [ran, EStateM.Result.error.injEq, true_and] at hidden kept ⊢
      obtain ⟨moved, setting⟩ := shadows.moved hidden.1 (kept False).1 (kept False).2.symm
      exact ⟨⟨_, ⟨moved, setting⟩, hidden.2⟩, (kept True).1.unasked trivial⟩

section

variable (shadows : Shadows breakpoints debugged plain) (refuses : reentry.Refuses)

include shadows refuses

/-- What an instruction does to a debugged machine it does to the shadow. It asks for the end
of the slice as the last thing that it does, and only if it goes on. Unless it returns to the
host it leaves a frame. -/
theorem ends_executeByte_shadow (unasked : debugged.Unasked)
    (running : debugged.exec.isIdle = false) {id : MethodId} {code : Array UInt8} {pc : UInt32}
    {byte : UInt8} (calls : Finds (·.isTimeless) (calledAt id code pc byte) plain) :
    Ends (executeByte reentry id code pc byte) debugged
      (fun ended after => (∃ left, Leaves breakpoints debugged after left ∧
          executeByte reentry id code pc byte plain = .ok ended left) ∧
        ended ≠ .suspended ∧ (after.AsksToSleep ∧ (ended = .next ∨ after.Unasked)) ∧
        ((∀ value, ended ≠ .returned value) → after.exec.isIdle = false))
      fun raised after => (∃ left, Leaves breakpoints debugged after left ∧
          executeByte reentry id code pc byte plain = .error raised left) ∧ after.Unasked := by
  have hides := shadows.hides unasked.2
  have found : Finds (·.isTimeless) (calledAt id code pc byte) debugged := by
    rw [← hides] at calls
    exact (finds_veil (blind_calledAt id code pc byte) shadows.covers).mp calls
  have admits : ∀ veil : Veil, ¬veil.steady →
      Finds veil.inFrame.Admits (calledAt id code pc byte) debugged := by
    intro veil unsteady
    refine Ends.mono found (fun called _ timeless own same => ?_) fun _ _ _ => trivial
    have timeless := timeless own same
    match own with
    | .host _ => exact trivial
    | .builtin (.thread native) =>
        cases native with
        | start => cases timeless
        | sleep | yield => exact unsteady
        | isAlive | currentThread => exact trivial
    | .builtin (.system native) =>
        cases native with
        | nanoTime | currentTimeMillis => cases timeless
        | arraycopy | identityHashCode | gc => exact trivial
    | .builtin (.object _) | .builtin (.string _) | .builtin (.cls _) | .builtin (.math _)
    | .builtin (.float _) | .builtin (.double _) | .builtin (.printStream _) => exact trivial
  have starts : Finds (· ≠ .builtin (.thread .start)) (calledAt id code pc byte) debugged := by
    refine Ends.mono found (fun called _ timeless own same => ?_) fun _ _ _ => trivial
    rintro rfl
    cases timeless _ same
  have still : debugged.veil (.stamped breakpoints debugged False) = debugged :=
    veil_stamped shadows.stamped False
  have hidden := blindAt_executeByte refuses shadows.covers running (admits _ not_false) not_false
  have kept := blindAt_executeByte refuses (shadows.covers_stamped False.elim) running
    (admits _ not_false) not_false
  have covers : (Veil.stamped breakpoints debugged True).Covers debugged :=
    shadows.covers_stamped fun _ => unasked
  have asks := asksLast_executeByte trivial trivial refuses covers not_false running starts
  have runs := ends_executeByte_running refuses shadows.covers running (admits _ not_false)
  have goes : Guest.ReturnsIdle False True (executeByte reentry id code pc byte) :=
    ReturnsIdle.executeByte reentry id code pc byte
  replace goes := goes debugged
  simp only [BlindAt, Ends, AsksLast, hides, still] at hidden kept asks runs goes ⊢
  cases ran : executeByte reentry id code pc byte debugged with
  | ok ended after =>
      simp only [ran, EStateM.Result.ok.injEq, true_and] at hidden kept asks runs goes ⊢
      obtain ⟨moved, setting⟩ := shadows.moved hidden.1 kept.1 kept.2.symm
      exact ⟨⟨_, ⟨moved, setting⟩, hidden.2⟩, goes.2.1, asks, runs⟩
  | error raised after =>
      simp only [ran, EStateM.Result.error.injEq, true_and] at hidden kept asks ⊢
      obtain ⟨moved, setting⟩ := shadows.moved hidden.1 kept.1 kept.2.symm
      exact ⟨⟨_, ⟨moved, setting⟩, hidden.2⟩, asks⟩

end

end Guest

namespace Machine

variable {breakpoints : Breakpoints} {debugged plain : Machine}

namespace Shadows

variable (shadows : Shadows breakpoints debugged plain)

include shadows

/-- The bytes of the shadow are those under the breakpoints. -/
theorem getElem?_bytecode (id : MethodId) (place : Nat) :
    (plain.bytecode id)[place]? = (debugged.bytecode id)[place]?.map fun byte =>
      (breakpoints.byteAt? id.owner.index id.index.toNat place).getD byte := by
  obtain ⟨veil, undebugs, rfl⟩ := shadows.veiled
  rw [bytecode, bytecode, method_veil, undebugs.recoding, Method.recode]
  cases (debugged.method id).code with
  | none => rfl
  | some code => exact breakpoints.getElem?_restoring _ _ _ _

/-- Where a byte is recorded there is a breakpoint. -/
theorem eq_breakpoint {id : MethodId} {place : Nat} {byte : UInt8}
    (there : (debugged.bytecode id)[place]? = some byte)
    (recorded : (breakpoints.byteAt? id.owner.index id.index.toNat place).isSome) :
    byte = Opcode.breakpoint.byte := by
  have method := debugged.registry.toClassTable.method_recode breakpoints.stamping id
  rw [show debugged.registry.toClassTable.recode breakpoints.stamping =
    debugged.registry.toClassTable from congrArg Registry.toClassTable shadows.stamped] at method
  rw [bytecode, Machine.method, method, Method.recode] at there
  cases own : (debugged.registry.toClassTable.method id).code with
  | none =>
      rw [own] at there
      cases there
  | some code =>
      rw [own] at there
      have stamp := breakpoints.getElem?_stamping id.owner.index id.index.toNat place code.bytecode
      simp only [recorded, if_true] at stamp
      obtain ⟨_, _, same⟩ := Option.map_eq_some_iff.mp (stamp.symm.trans there)
      exact same.symm

theorem spares (id : MethodId) :
    breakpoints.Spares id (plain.bytecode id) (debugged.bytecode id) := by
  intro place unrecorded
  rw [shadows.getElem?_bytecode, unrecorded]
  exact (Option.map_id' ..).symm

/-- The byte that runs is that of the shadow; where none is recorded, that is a breakpoint
which nobody set. -/
theorem getElem?_plainByte {id : MethodId} {pc : UInt32} {byte : UInt8}
    (there : (debugged.bytecode id)[pc.toNat]? = some byte) :
    (plain.bytecode id)[pc.toNat]? =
      some ((Guest.plainByte breakpoints id pc byte).getD Opcode.breakpoint.byte) := by
  rw [shadows.getElem?_bytecode, there, Breakpoints.byteAt?_eq_lookup, Option.map_some,
    Guest.plainByte]
  split
  next stands =>
      rw [stands]
  next other =>
      cases recorded : breakpoints.lookup (id, pc) with
      | none => rfl
      | some kept =>
          refine absurd (shadows.eq_breakpoint there ?_) other
          rw [Breakpoints.byteAt?_eq_lookup, recorded]
          rfl

end Shadows

end Machine

namespace Guest

variable {breakpoints : Breakpoints} {debugged plain : Machine} {reentry : Reentry}

/-! ## Without a debugger -/

/-- The error of a byte that starts no instruction, a breakpoint that nobody set. -/
def strayBreakpoint (machine : Machine) (id : MethodId) (pc : UInt32) : Throw :=
  .fatal (.unknownOpcode Opcode.breakpoint.byte (machine.methodLabel id) pc)

theorem executeByte_breakpoint (reentry : Reentry) (id : MethodId) (code : Array UInt8)
    (pc : UInt32) (machine : Machine) :
    executeByte reentry id code pc Opcode.breakpoint.byte machine =
      .error (strayBreakpoint machine id pc) machine := by
  have known : Opcode.ofByte Opcode.breakpoint.byte = some .breakpoint := by decide +kernel
  have strays : Instr.decode code pc .breakpoint =
      .error (.unknown Opcode.breakpoint.byte pc) := rfl
  rw [executeByte]
  simp only [known, strays, ofDecode, ofDecodeFault]
  rfl

/-- Without a debugger the byte in the code is the one that runs. -/
theorem fetch_plain {machine : Machine} (detached : machine.debuggerAttached = false)
    (clean : machine.breakpoints = []) (unmarked : machine.exec.skipBreakpoint = none)
    (id : MethodId) (pc : UInt32) (byte : UInt8) :
    fetch id pc byte machine =
      if byte = Opcode.breakpoint.byte then .error (strayBreakpoint machine id pc) machine
      else .ok (some byte) machine := by
  have resumes : takeResumed id pc machine = .ok false machine := by
    simp only [takeResumed, bind, EStateM.bind, run_get, unmarked]
    rfl
  have passes : (modifyGet fun machine => machine.checkStop id pc : Guest Bool) machine =
      .ok false machine := by
    rw [run_modifyGet, checkStop_of_detached detached]
  rw [fetch, bind_of_ok resumes]
  change ((modifyGet fun machine => machine.checkStop id pc : Guest Bool) >>= _) machine = _
  rw [bind_of_ok passes]
  change (if byte = Opcode.breakpoint.byte then underBreakpoint id pc false
    else pure (some byte) : Guest (Option UInt8)) machine = _
  split
  next stands =>
      have unset : machine.breakpoint? id pc = none := by rw [breakpoint?, clean]; rfl
      simp only [underBreakpoint, bind, EStateM.bind, run_get, unset]
      rfl
  next other => rfl

/-- A step without a debugger, by the byte in the code. -/
theorem step_plain {machine : Machine} (detached : machine.debuggerAttached = false)
    (clean : machine.breakpoints = []) (unmarked : machine.exec.skipBreakpoint = none)
    {id : MethodId} (current : machine.exec.method = some id) :
    step reentry machine =
      match (machine.bytecode id)[machine.exec.pc.toNat]? with
      | none => .error (.fatal (.invalidState
          (.pcOutsideCode machine.exec.pc (machine.methodLabel id)))) machine
      | some byte =>
        if byte = Opcode.breakpoint.byte then
          .error (strayBreakpoint machine id machine.exec.pc) machine
        else executeByte reentry id (machine.bytecode id) machine.exec.pc byte machine := by
  have fetches := fetch_plain detached clean unmarked id machine.exec.pc
  simp only [step, bind, EStateM.bind, run_get, current]
  rw [show (machine.method id).code.elim #[] (·.bytecode) = machine.bytecode id from rfl]
  cases there : (machine.bytecode id)[machine.exec.pc.toNat]? with
  | none =>
      simp only [Bytecode.byte, there]
      rfl
  | some byte =>
      simp only [Bytecode.byte, there, ofDecode, pure, EStateM.pure, fetches]
      by_cases stands : byte = Opcode.breakpoint.byte
      · simp only [if_pos stands]
      · simp only [if_neg stands]

/-- Without a debugger the native of the byte in the code is the next one to run. -/
theorem finds_calledAt_plain {machine : Machine} {admitted : Native → Prop}
    (detached : machine.debuggerAttached = false) (clean : machine.breakpoints = [])
    (unmarked : machine.exec.skipBreakpoint = none) {id : MethodId} {byte : UInt8}
    (current : machine.exec.method = some id)
    (there : (machine.bytecode id)[machine.exec.pc.toNat]? = some byte)
    (other : byte ≠ Opcode.breakpoint.byte) (finds : Finds admitted calledNext machine) :
    Finds admitted (calledAt id (machine.bytecode id) machine.exec.pc byte) machine := by
  have fetches := fetch_plain detached clean unmarked id machine.exec.pc byte
  rw [if_neg other] at fetches
  simp only [Finds, Ends, calledNext, askedNext, bind, EStateM.bind, run_get, current] at finds ⊢
  rw [show (machine.method id).code.elim #[] (·.bytecode) = machine.bytecode id from rfl] at finds
  simp only [Bytecode.byte, there, ofDecode, pure, EStateM.pure, fetches] at finds
  exact finds

/-- The native of an instruction is found by what is decoded. -/
theorem calledAt_congr {id : MethodId} {code other : Array UInt8} {pc : UInt32} {byte : UInt8}
    (decodes : ∀ opcode, Opcode.ofByte byte = some opcode →
      Instr.decode other pc opcode = Instr.decode code pc opcode) :
    calledAt id other pc byte = calledAt id code pc byte := by
  rw [calledAt, askedAt, askedAt]
  cases known : Opcode.ofByte byte with
  | none => rfl
  | some opcode => simp only [decodes opcode known]

/-! ## Under a debugger -/

/-- What the debugger leaves when it stops before an instruction: a machine with the same
shadow, in which the instruction is marked. -/
structure Halts (breakpoints : Breakpoints) (debugged after plain : Machine) : Prop where
  shadows : Shadows breakpoints after plain
  setting : after.setting = debugged.setting
  unasked : after.Unasked
  running : after.exec.isIdle = false
  clear : after.exec.pendingException = none
  unmarked : debugged.exec.skipBreakpoint ≠ debugged.exec.place?
  marked : after.exec.skipBreakpoint = after.exec.place?

/-- Whether a step that returned has done the same to the shadow. It may have asked for the
end of the slice if it goes on, and unless it returns to the host it leaves a frame. -/
def Follows (reentry : Reentry) (breakpoints : Breakpoints) (debugged plain : Machine)
    (ended : Step) (after : Machine) : Prop :=
  (∃ left, Leaves breakpoints debugged after left ∧ step reentry plain = .ok ended left) ∧
    ended ≠ .suspended ∧ (after.AsksToSleep ∧ (ended = .next ∨ after.Unasked)) ∧
    ((∀ value, ended ≠ .returned value) → after.exec.isIdle = false)

/-- Whether a step that threw has done the same to the shadow, and asked for nothing. -/
def Fails (reentry : Reentry) (breakpoints : Breakpoints) (debugged plain : Machine)
    (raised : Throw) (after : Machine) : Prop :=
  (∃ left, Leaves breakpoints debugged after left ∧ step reentry plain = .error raised left) ∧
    after.Unasked

/-- A step of a debugged machine stops before its instruction, or it is one of the shadow. -/
theorem ends_step_shadow (shadows : Shadows breakpoints debugged plain)
    (refuses : reentry.Refuses) (unasked : debugged.Unasked)
    (running : debugged.exec.isIdle = false) (calls : Finds (·.isTimeless) calledNext plain)
    (unread : Unread reentry breakpoints plain) :
    Ends (step reentry) debugged
      (fun ended after => (ended = .suspended ∧ Halts breakpoints debugged after plain) ∨
        Follows reentry breakpoints debugged plain ended after)
      (Fails reentry breakpoints debugged plain) := by
  obtain ⟨id, current⟩ := Option.isSome_iff_exists.mp (Option.isNone_eq_false_iff.mp running)
  have currentPlain : plain.exec.method = some id := shadows.method_eq ▸ current
  have stepped : step reentry plain = _ :=
    step_plain shadows.detached shadows.clean shadows.unmarked currentPlain
  rw [← shadows.pc_eq] at stepped
  have place : debugged.exec.place? = some (id, debugged.exec.pc) := by
    rw [Execution.place?, current]
    rfl
  have leaves : Leaves breakpoints debugged debugged plain := ⟨shadows, rfl⟩
  rw [step, ends_bind, ends_get]
  simp only [current]
  rw [show (debugged.method id).code.elim #[] (·.bytecode) = debugged.bytecode id from rfl, ends_bind]
  cases there : (debugged.bytecode id)[debugged.exec.pc.toNat]? with
  | none =>
      have outside := shadows.getElem?_bytecode id debugged.exec.pc.toNat
      rw [there, Option.map_none] at outside
      rw [outside, ← shadows.methodLabel_eq] at stepped
      have decoded : Bytecode.byte (debugged.bytecode id) debugged.exec.pc =
          .error (.outside debugged.exec.pc) := by rw [Bytecode.byte, there]
      rw [decoded]
      exact Ends.of_error rfl ⟨⟨plain, leaves, stepped⟩, unasked⟩
  | some byte =>
      have decoded : Bytecode.byte (debugged.bytecode id) debugged.exec.pc = .ok byte := by
        rw [Bytecode.byte, there]
      have shown := shadows.getElem?_plainByte there
      rw [shown] at stepped
      rw [decoded, ofDecode, ends_pure, ends_bind]
      refine (ends_fetch_debugged id debugged.exec.pc byte debugged).mono ?_ ?_
      · rintro fetched after ⟨debugger, ⟨rfl, unmarked, -, rfl⟩ | ⟨run, rfl, runs, rfl⟩⟩
        · refine ends_pure.mpr (.inl ⟨rfl, shadows.marked debugger _, rfl, unasked, running,
            shadows.clear, ?_, ?_⟩)
          · rwa [place]
          · exact place.symm
        · have marked := shadows.marked debugger none
          have settled : (debugged.marked debugger none).setting = debugged.setting := rfl
          rw [shadows.records] at runs
          rw [runs] at shown stepped
          dsimp only at stepped ⊢
          by_cases stray : run = Opcode.breakpoint.byte
          · rw [Option.getD_some, if_pos stray] at stepped
            subst stray
            refine Ends.of_error (executeByte_breakpoint ..) ⟨⟨plain, ⟨marked, settled⟩, ?_⟩, unasked⟩
            rw [stepped, strayBreakpoint, strayBreakpoint, marked.methodLabel_eq]
          · have shownPlain := shown
            rw [Option.getD_some, shadows.pc_eq] at shownPlain
            obtain ⟨decodes, executes⟩ := unread currentPlain shownPlain (shadows.spares id)
            have called := finds_calledAt_plain shadows.detached shadows.clean shadows.unmarked
              currentPlain shownPlain stray calls
            rw [← calledAt_congr decodes, ← shadows.pc_eq] at called
            rw [← shadows.pc_eq] at executes
            rw [Option.getD_some, if_neg stray, ← executes] at stepped
            refine (ends_executeByte_shadow marked refuses unasked running called).mono ?_ ?_
            · rintro ended last ⟨⟨left, leaves, ran⟩, goes, asks, runs⟩
              exact .inr ⟨⟨left, ⟨leaves.shadows, leaves.setting⟩, stepped.trans ran⟩, goes, asks, runs⟩
            · rintro raised last ⟨⟨left, leaves, ran⟩, calm⟩
              exact ⟨⟨left, ⟨leaves.shadows, leaves.setting⟩, stepped.trans ran⟩, calm⟩
      · rintro raised after ⟨debugger, unrecorded, rfl, rfl⟩
        rw [shadows.records] at unrecorded
        rw [unrecorded] at stepped
        refine ⟨⟨plain, ⟨shadows.marked debugger none, rfl⟩, ?_⟩, unasked⟩
        rw [stepped, Option.getD_none]
        dsimp only
        rw [if_pos rfl, strayBreakpoint, shadows.methodLabel_eq]

end Guest

end Jvm
