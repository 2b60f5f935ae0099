import Jvm.Machine.Step
import Jvm.Proofs.Machine.Calls

/-!
# Returns to the host

Most instructions go on, wait or throw. Only a return can end an execution, and it does so
only when it leaves the bottom frame: then nothing is left to run. Only the debugger, before
an instruction runs, stops an execution, and only calls and entries of monitors wait.
-/

namespace Jvm

/-- Whether an instruction takes a lock, so that it may have to wait for it. -/
def Instr.TakesLock : Instr → Prop
  | .invoke .. | .invokeStatic _ | .enterMonitor => True
  | _ => False

namespace Guest

/-- Whether a step returns to the host only by leaving the bottom frame. `stops` is whether
it may stop the execution, and `waits` whether it may have to run again for want of a lock. -/
def ReturnsIdle (stops waits : Prop) (step : Guest Step) : Prop :=
  ∀ machine, Ends step machine
    (fun ended after => (∀ value, ended = .returned value → after.exec.method = none) ∧
      (ended = .suspended → stops) ∧ (ended = .blocked → waits))
    fun _ _ => True

namespace ReturnsIdle

variable {stops waits : Prop} {β : Type}

protected theorem bind {step : Guest β} {next : β → Guest Step}
    (rest : ∀ value, ReturnsIdle stops waits (next value)) :
    ReturnsIdle stops waits (step >>= next) := by
  intro machine
  rw [ends_bind]
  exact (ends_trivial step machine).mono (fun value after _ => rest value after)
    fun _ _ _ => trivial

/-- Less is said of a step that may wait. -/
theorem mayWait {step : Guest Step} (idle : ReturnsIdle stops waits step) :
    ReturnsIdle stops True step :=
  fun machine => (idle machine).mono (fun _ _ held => ⟨held.1, held.2.1, fun _ => trivial⟩)
    fun _ _ _ => trivial

protected theorem throw (thrown : Throw) : ReturnsIdle stops waits (throw thrown) := fun _ =>
  ends_throw.mpr trivial

theorem next : ReturnsIdle stops waits (pure .next) := fun _ =>
  ends_pure.mpr ⟨nofun, nofun, nofun⟩

theorem blocked : ReturnsIdle stops True (pure .blocked) := fun _ =>
  ends_pure.mpr ⟨nofun, nofun, fun _ => trivial⟩

theorem suspended : ReturnsIdle True waits (pure .suspended) := fun _ =>
  ends_pure.mpr ⟨nofun, fun _ => trivial, nofun⟩

protected theorem ite {condition : Prop} [Decidable condition] {left right : Guest Step}
    (yes : ReturnsIdle stops waits left) (no : ReturnsIdle stops waits right) :
    ReturnsIdle stops waits (if condition then left else right) := by
  split
  · exact yes
  · exact no

theorem fault (stateFault : StateFault) : ReturnsIdle stops waits (Guest.fault stateFault) :=
  .throw _

theorem raise (kind : ExceptionKind) (message : Option String) :
    ReturnsIdle stops waits (Guest.raise kind message) := .bind fun _ => .throw _

theorem proceed (pc : UInt32) : ReturnsIdle stops waits (Guest.proceed pc) := .bind fun _ => next

theorem compute (pc : UInt32) (change : Stack → Stack) :
    ReturnsIdle stops waits (Guest.compute pc change) :=
  .bind fun _ => next

theorem jumpBy (id : MethodId) (pc : UInt32) (offset : Except DecodeFault UInt32) :
    ReturnsIdle stops waits (Guest.jumpBy id pc offset) := .bind fun _ => proceed _

theorem divide (pc : UInt32) (change : Stack → Bool × Stack) :
    ReturnsIdle stops waits (Guest.divide pc change) := .bind fun _ => .ite (proceed _) (raise _ _)

theorem returnFromFrame (value : Value) :
    ReturnsIdle stops waits (Guest.returnFromFrame value) := by
  intro machine
  cases current : machine.exec.method with
  | none =>
      rw [Guest.returnFromFrame, ends_bind, ends_get]
      simp only [current]
      exact fault _ machine
  | some id =>
      refine (Guest.ends_returnFromFrame value current).mono ?_ fun _ _ _ => trivial
      rintro ended after ⟨resumed, rfl⟩
      refine ⟨fun returned finishes => ?_, by split <;> rintro ⟨⟩, by split <;> rintro ⟨⟩⟩
      rw [resumed]
      cases caller : (machine.exec.resume value).method with
      | none => rfl
      | some id =>
          rw [Execution.isIdle_of_method caller, if_neg Bool.false_ne_true] at finishes
          cases finishes

theorem invoke (reentry : Reentry) (id : MethodId) (callerPc returnPc : UInt32) :
    ReturnsIdle stops True (Guest.invoke reentry id callerPc returnPc) := by
  refine .bind fun machine => .ite (raise _ _) (.bind fun taken => .ite blocked ?_)
  exact .ite (.bind fun _ => .bind fun _ => next) (.bind fun _ => next)

section

variable (reentry : Reentry) (id : ClassId) (index : UInt16) (pc returnPc : UInt32)

theorem getStatic : ReturnsIdle stops waits (Guest.getStatic id index pc returnPc) := by
  refine .bind fun found => ?_
  cases found with
  | none => exact next
  | some field => exact .bind fun _ => .bind fun _ => .bind fun _ => proceed _

theorem setStatic : ReturnsIdle stops waits (Guest.setStatic id index pc returnPc) := by
  refine .bind fun found => ?_
  cases found with
  | none => exact next
  | some field =>
      refine .bind fun _ => .bind fun _ => ?_
      exact .ite (.bind fun _ => .bind fun _ => proceed _) (.bind fun _ => proceed _)

theorem getField : ReturnsIdle stops waits (Guest.getField id index returnPc) := by
  refine .bind fun field => .bind fun ref => ?_
  cases ref with
  | none => exact .bind fun _ => raise _ _
  | some ref => exact .bind fun _ => .bind fun _ => .bind fun _ => proceed _

theorem setField : ReturnsIdle stops waits (Guest.setField id index returnPc) := by
  refine .bind fun field => .bind fun value => .bind fun ref => ?_
  cases ref with
  | none => exact .bind fun _ => raise _ _
  | some ref =>
      refine .bind fun _ => ?_
      exact .ite (.bind fun _ => .bind fun _ => proceed _) (.bind fun _ => proceed _)

theorem invokeInstance (mode : CallMode) :
    ReturnsIdle stops True (Guest.invokeInstance reentry mode id index pc returnPc) := by
  refine .bind fun resolved => .bind fun machine => .ite (raise _ _) ?_
  split
  · exact raise _ _
  · exact .bind fun _ => invoke reentry _ pc returnPc

theorem invokeStatic : ReturnsIdle stops True (Guest.invokeStatic reentry id index pc returnPc) :=
  .bind fun _ => .ite (.bind fun _ => raise _ _)
    (.bind fun _ => .ite next (invoke reentry _ pc returnPc))

theorem pushInstance : ReturnsIdle stops waits (Guest.pushInstance id index pc returnPc) :=
  .bind fun _ => .bind fun _ => .ite (raise _ _)
    (.bind fun _ => .ite next (.bind fun _ => .bind fun _ => proceed _))

theorem pushArray (count : Slot) : ReturnsIdle stops waits (Guest.pushArray id count returnPc) :=
  .bind fun _ => .bind fun _ => proceed _

theorem pushPrimitiveArray (code : UInt8) :
    ReturnsIdle stops waits (Guest.pushPrimitiveArray code returnPc) :=
  .bind fun _ => .bind fun _ => .bind fun _ => pushArray _ returnPc _

theorem pushRefArray : ReturnsIdle stops waits (Guest.pushRefArray id index returnPc) :=
  .bind fun _ => .bind fun _ => .bind fun _ => pushArray _ returnPc _

theorem checkCast : ReturnsIdle stops waits (Guest.checkCast id index returnPc) := by
  refine .bind fun target => .bind fun machine => ?_
  split
  · exact proceed _
  · exact .bind fun _ => .bind fun _ => .ite (proceed _) (raise _ _)

theorem testInstance : ReturnsIdle stops waits (Guest.testInstance id index returnPc) := by
  refine .bind fun target => .bind fun ref => ?_
  cases ref with
  | none => exact .bind fun _ => .bind fun _ => proceed _
  | some ref => exact .bind fun _ => .bind fun _ => .bind fun _ => .bind fun _ => proceed _

theorem pushConstant : ReturnsIdle stops waits (Guest.pushConstant id index returnPc) := by
  have pushes : ∀ value : Value, ReturnsIdle stops waits (do
      Guest.onStack fun stack => stack.pushValue value
      Guest.proceed returnPc) := fun _ => .bind fun _ => proceed _
  refine .bind fun constant => ?_
  split
  case h_5 | h_6 => exact .bind fun _ => .bind pushes
  case h_7 | h_8 => exact .bind fun _ => .bind fun _ => .bind pushes
  all_goals exact .bind pushes

theorem enterMonitor : ReturnsIdle stops True (Guest.enterMonitor returnPc) := by
  refine .bind fun machine => ?_
  split
  · exact .bind fun _ => raise _ _
  · exact .bind fun _ => .ite (.bind fun _ => proceed _) blocked

theorem exitMonitor : ReturnsIdle stops waits (Guest.exitMonitor returnPc) := by
  refine .bind fun ref => ?_
  cases ref with
  | none => exact raise _ _
  | some ref => exact .bind fun _ => .ite (proceed _) (raise _ _)

end

theorem execute (reentry : Reentry) (id : MethodId) (code : Array UInt8) (pc returnPc : UInt32)
    (instr : Instr) :
    ReturnsIdle stops instr.TakesLock (Guest.execute reentry id code pc returnPc instr) := by
  rw [Guest.execute.eq_def]
  cases instr with
  | nop => exact proceed _
  | push | discard | dup | swap | intShift | longShift | floatOp | doubleOp | negate | convert
  | compareLong | compareFloat | compareDouble => exact compute _ _
  | load | store | increment => exact .bind fun _ => compute _ _
  | intOp | longOp => exact divide _ _
  | constant index => exact pushConstant _ _ _
  | arrayLoad | arrayStore | arrayLength => exact .bind fun _ => proceed _
  | branch condition => exact .bind fun _ => .ite (jumpBy _ _ _) (proceed _)
  | jump far => exact jumpBy _ _ _
  | jumpSubroutine far => exact .bind fun _ => jumpBy _ _ _
  | returnSubroutine index => exact .bind fun _ => proceed _
  | tableSwitch | lookupSwitch => exact .bind fun _ => jumpBy _ _ _
  | leave kind =>
      cases kind with
      | none => exact returnFromFrame _
      | some kind => exact .bind fun _ => returnFromFrame _
  | getStatic index => exact getStatic _ _ _ _
  | putStatic index => exact setStatic _ _ _ _
  | getField index => exact getField _ _ _
  | putField index => exact setField _ _ _
  | invoke mode index => exact invokeInstance _ _ _ _ _ _
  | invokeStatic index => exact invokeStatic _ _ _ _ _
  | invokeDynamic => exact raise _ _
  | newObject index => exact pushInstance _ _ _ _
  | newArray element => exact pushPrimitiveArray _ _
  | newRefArray index => exact pushRefArray _ _ _
  | newMultiArray index dimensions =>
      exact .ite (.bind fun _ => .bind fun _ => .bind fun _ => .bind fun _ => proceed _)
        (.bind fun _ => .bind fun _ => proceed _)
  | throwRef =>
      refine .bind fun ref => ?_
      cases ref with
      | none => exact raise _ _
      | some ref => exact .throw _
  | checkCast index => exact checkCast _ _ _
  | instanceOf index => exact testInstance _ _ _
  | enterMonitor => exact enterMonitor _
  | exitMonitor => exact exitMonitor _

theorem executeByte (reentry : Reentry) (id : MethodId) (code : Array UInt8) (pc : UInt32)
    (byte : UInt8) : ReturnsIdle stops True (Guest.executeByte reentry id code pc byte) := by
  rw [Guest.executeByte]
  split
  · exact .bind fun _ => by split <;> exact .throw _
  · exact .bind fun _ => (execute _ _ _ _ _ _).mayWait

/-- An instruction returns to the host only by leaving the bottom frame, and only a
debugger stops before it. -/
theorem step (reentry : Reentry) : ReturnsIdle True True (Guest.step reentry) := by
  refine .bind fun machine => ?_
  split
  · exact fault _
  · refine .bind fun byte => .bind fun fetched => ?_
    cases fetched with
    | none => exact suspended
    | some byte => exact executeByte _ _ _ _ _

end ReturnsIdle

end Guest

end Jvm
