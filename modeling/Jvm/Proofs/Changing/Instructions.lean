import Jvm.Machine.Step
import Jvm.Proofs.Changing.Natives

/-!
# Instructions keep objects in shape

An instruction resolves what it names, starts initializations, allocates, reads and writes
fields and elements, calls and returns. If the calls that natives make keep objects in shape,
so does every instruction.
-/

namespace Jvm

open Machine

/-- Whether an instruction touches neither frames nor locks. -/
def Instr.isPlain : Instr → Bool
  | .leave _ | .getStatic _ | .putStatic _ | .invoke .. | .invokeStatic _ | .newObject _
  | .enterMonitor | .exitMonitor => false
  | _ => true

variable {scope : Scope}

namespace Guest

variable {α : Type}

/-! ## Calls -/

theorem paces_bindNative (id : MethodId) : PacesIn scope (bindNative id) := by
  refine PacesIn.get.bind fun machine => ?_
  dsimp only
  split
  · exact .pure _
  · split
    · exact PacesIn.bind (.modify fun machine => machine.shapes_modifyMethod id fun _ => rfl)
        fun _ => .pure _
    · exact paces_raise _ _

theorem shapes_releaseLock (lock : Option Lock) (machine : Machine) :
    Shapes machine (releaseLock lock machine) := by
  cases lock with
  | none => exact .refl
  | some lock => exact machine.shapes_exitLock trivial

theorem paces_takeLock (lock : Option Lock) : Paces (takeLock lock) := by
  cases lock with
  | none => exact .pure _
  | some lock => exact paces_enterLock trivial

section

variable {reentry : Reentry} (paces : reentry.Paces)

include paces

theorem paces_callNative (id : MethodId) : Paces (callNative reentry id) := by
  refine (paces_bindNative id).bind fun native => PacesIn.get.bind fun machine => ?_
  dsimp only
  split
  · exact paces_fault _
  · exact (native.paces_run paces _).bind fun _ => (paces_onStack _).bind fun _ => .pure _

theorem paces_invoke (id : MethodId) (callerPc returnPc : UInt32) :
    Paces (invoke reentry id callerPc returnPc) := by
  refine PacesIn.get.bind fun machine => ?_
  dsimp only
  split
  · exact paces_raise _ _
  · refine (paces_takeLock _).bind fun taken => ?_
    split
    · exact .pure _
    · split
      · refine (paces_onThrow (paces_callNative paces id) (shapes_releaseLock _)).bind fun value =>
          PacesIn.bind (.modify fun machine => ?_) fun _ => .pure _
        exact (shapes_releaseLock _ machine).trans (shapes_modifyExec fun _ => ⟨rfl, rfl, rfl⟩)
      · exact (paces_onThrow (paces_pushFrame trivial _ _ _) (shapes_releaseLock _)).bind
          fun _ => .pure _

end

/-! ## Fields -/

theorem paces_proceed (pc : UInt32) : PacesIn scope (proceed pc) :=
  PacesIn.bind (paces_modifyExec fun _ => ⟨rfl, rfl, rfl⟩) fun _ => .pure _

theorem paces_mismatch (message : String) :
    PacesIn scope (mismatch message : Guest α) := paces_raise _ _

theorem paces_staticField? (frames : scope.frames) (id : ClassId) (index : UInt16) (pc : UInt32) :
    PacesIn scope (staticField? id index pc) := by
  refine (paces_resolveField id index).bind fun field => ?_
  split
  · exact PacesIn.get.bind fun _ => paces_mismatch _
  · refine (paces_ensureInitialized frames _ _).bind fun pushed => ?_
    split <;> exact .pure _

theorem paces_getStatic (frames : scope.frames) (id : ClassId) (index : UInt16) (pc next : UInt32) :
    PacesIn scope (getStatic id index pc next) := by
  refine (paces_staticField? frames id index pc).bind fun found => ?_
  split
  · exact .pure _
  · exact PacesIn.get.bind fun _ => (paces_require _ _).bind fun _ => (paces_onStack _).bind fun _ =>
      paces_proceed _

theorem paces_setStatic (frames : scope.frames) (id : ClassId) (index : UInt16) (pc next : UInt32) :
    PacesIn scope (setStatic id index pc next) := by
  refine (paces_staticField? frames id index pc).bind fun found => ?_
  split
  · exact .pure _
  · next field =>
      refine (paces_fromStack _).bind fun value => PacesIn.get.bind fun machine => ?_
      have stores : PacesIn scope (do
          putStatic field.owner field.slot.toNat value
          proceed next : Guest Step) :=
        (paces_putStatic _ _ _).bind fun _ => paces_proceed _
      dsimp only
      split
      · exact (paces_fault _).bind fun _ => stores
      · exact stores

theorem paces_instanceField (id : ClassId) (index : UInt16) :
    PacesIn scope (instanceField id index) := by
  refine (paces_resolveField id index).bind fun field => ?_
  split
  · exact PacesIn.get.bind fun _ => paces_mismatch _
  · exact .pure _

theorem paces_getField (id : ClassId) (index : UInt16) (next : UInt32) :
    PacesIn scope (getField id index next) := by
  refine (paces_instanceField id index).bind fun field => (paces_fromStack _).bind fun ref => ?_
  split
  · exact PacesIn.get.bind fun _ => paces_raiseNull _
  · exact PacesIn.get.bind fun _ => (paces_require _ _).bind fun _ => (paces_onStack _).bind fun _ =>
      paces_proceed _

theorem paces_setField (id : ClassId) (index : UInt16) (next : UInt32) :
    PacesIn scope (setField id index next) := by
  refine (paces_instanceField id index).bind fun field => (paces_fromStack _).bind fun value =>
    (paces_fromStack _).bind fun ref => ?_
  split
  · exact PacesIn.get.bind fun _ => paces_raiseNull _
  · next ref =>
      have stores : PacesIn scope (do
          modify fun machine => machine.modifyHeap fun heap => heap.modifyFields ref fun fields =>
            fields.write field.slot.toNat value
          proceed next : Guest Step) :=
        (paces_modifyFields (fun _ => ref) fun _ fields => fields.size_write _ _).bind fun _ =>
          paces_proceed _
      refine PacesIn.get.bind fun machine => ?_
      dsimp only
      split
      · exact (paces_fault _).bind fun _ => stores
      · exact stores

/-! ## Calls by instructions -/

theorem paces_selectTarget (mode : CallMode) (receiver : Ref) (resolved : MethodId) :
    PacesIn scope (selectTarget mode receiver resolved) := by
  have selects : PacesIn scope (selectTarget .dispatch receiver resolved) := by
    rw [selectTarget.eq_def]
    refine PacesIn.get.bind fun machine => (paces_require _ _).bind fun cls => ?_
    refine PacesIn.bind (fun _ => Moves.of_ok rfl (shapes_resolveVirtual cls resolved) trivial)
      fun target => ?_
    split
    · exact .pure _
    · exact PacesIn.get.bind fun _ => paces_raise _ _
  cases mode with
  | exact => exact .pure _
  | _ => exact selects

section

variable {reentry : Reentry} (paces : reentry.Paces)

include paces

theorem paces_invokeInstance (mode : CallMode) (id : ClassId) (index : UInt16) (pc next : UInt32) :
    Paces (invokeInstance reentry mode id index pc next) := by
  refine (paces_resolveMethod id index).bind fun resolved => PacesIn.get.bind fun machine => ?_
  dsimp only
  split
  · exact paces_mismatch _
  · split
    · exact paces_raiseNull _
    · exact (paces_selectTarget _ _ _).bind fun _ => paces_invoke paces _ _ _

theorem paces_invokeStatic (id : ClassId) (index : UInt16) (pc next : UInt32) :
    Paces (invokeStatic reentry id index pc next) := by
  refine (paces_resolveMethod id index).bind fun resolved => ?_
  split
  · exact PacesIn.get.bind fun _ => paces_mismatch _
  · refine (paces_ensureInitialized trivial _ _).bind fun pushed => ?_
    split
    · exact .pure _
    · exact paces_invoke paces _ _ _

end

/-! ## Objects and types -/

/-- An instance is made of a class that is not abstract, so of no array class. -/
theorem paces_pushInstance (frames : scope.frames) (id : ClassId) (index : UInt16)
    (pc next : UInt32) : PacesIn scope (pushInstance id index pc next) := by
  refine fun machine => (moves_resolveClass id index machine).bind fun target after _ links =>
    Moves.get_bind ?_
  dsimp only
  split
  · exact paces_raise _ _ after
  next concrete =>
      have makes : after.Shapely → after.registry.Makes target := fun shapely =>
        shapely.laid.makes_of_concrete (links.has shapely.closed)
          (Bool.eq_false_iff.mpr fun abstract => concrete (Bool.or_eq_true_iff.mpr (.inr abstract)))
      refine (paces_ensureInitialized frames _ _ after).bind_from fun pushed later begun _ => ?_
      split
      · exact Moves.pure begun trivial
      · refine (moves_newInstance_from begun fun shapely =>
          begun.makes shapely.toProper (makes shapely)).bind_from fun ref made reached _ => ?_
        have pushes : PacesIn scope (do
            onStack fun stack => stack.pushRef (some ref)
            proceed next : Guest Step) := (paces_onStack _).bind fun _ => paces_proceed _
        exact (pushes made).of_related fun _ more => reached.trans more

theorem paces_pushArray (id : ClassId) (count : Slot) (next : UInt32) :
    PacesIn scope (pushArray id count next) :=
  (paces_newArray id _).bind fun _ => (paces_onStack _).bind fun _ => paces_proceed _

theorem paces_pushPrimitiveArray (code : UInt8) (next : UInt32) :
    PacesIn scope (pushPrimitiveArray code next) :=
  (paces_require _ _).bind fun _ => (paces_fromStack _).bind fun _ => (paces_loadClass _).bind
    fun _ => paces_pushArray _ _ _

theorem paces_pushRefArray (id : ClassId) (index : UInt16) (next : UInt32) :
    PacesIn scope (pushRefArray id index next) :=
  (paces_resolveClass id index).bind fun _ => (paces_fromStack _).bind fun _ =>
    (paces_arrayClassOf _).bind fun _ => paces_pushArray _ _ _

theorem paces_checkCast (id : ClassId) (index : UInt16) (next : UInt32) :
    PacesIn scope (checkCast id index next) := by
  refine (paces_resolveClass id index).bind fun target => PacesIn.get.bind fun machine => ?_
  split
  · exact paces_proceed _
  · refine (paces_classOf _).bind fun held => PacesIn.get.bind fun machine => ?_
    split
    · exact paces_proceed _
    · exact paces_raise _ _

theorem paces_testInstance (id : ClassId) (index : UInt16) (next : UInt32) :
    PacesIn scope (testInstance id index next) := by
  have pushes : ∀ answer : Bool, PacesIn scope (do
      onStack fun stack => stack.pushValue (ofBool answer)
      proceed next : Guest Step) :=
    fun _ => (paces_onStack _).bind fun _ => paces_proceed _
  refine (paces_resolveClass id index).bind fun target => (paces_fromStack _).bind fun ref => ?_
  dsimp only
  split
  · exact (PacesIn.pure false).bind pushes
  · exact (paces_classOf _).bind fun held => PacesIn.get.bind fun machine =>
      (PacesIn.pure (machine.registry.isAssignable held target)).bind pushes

theorem paces_pushConstant (id : ClassId) (index : UInt16) (next : UInt32) :
    PacesIn scope (pushConstant id index next) := by
  have pushes : ∀ value : Value, PacesIn scope (do
      onStack fun stack => stack.pushValue value
      proceed next : Guest Step) :=
    fun value => (paces_onStack _).bind fun _ => paces_proceed _
  refine (paces_constantAt id index).bind fun constant => ?_
  dsimp only
  split
  · exact (PacesIn.pure _).bind pushes
  · exact (PacesIn.pure _).bind pushes
  · exact (PacesIn.pure _).bind pushes
  · exact (PacesIn.pure _).bind pushes
  · exact (paces_resolveString _ _).bind fun _ => (PacesIn.pure _).bind pushes
  · exact (paces_resolveString _ _).bind fun _ => (PacesIn.pure _).bind pushes
  · exact (paces_resolveClass _ _).bind fun _ => (paces_mirror _).bind fun _ =>
      (PacesIn.pure _).bind pushes
  · exact (paces_resolveClass _ _).bind fun _ => (paces_mirror _).bind fun _ =>
      (PacesIn.pure _).bind pushes
  · exact (paces_fatal _).bind pushes

/-! ## Monitors -/

theorem paces_enterMonitor (next : UInt32) : Paces (enterMonitor next) := by
  refine PacesIn.get.bind fun machine => ?_
  split
  · exact (paces_onStack _).bind fun _ => paces_raiseNull _
  · refine (paces_enterLock trivial).bind fun taken => ?_
    split
    · exact (paces_onStack _).bind fun _ => paces_proceed _
    · exact .pure _

theorem paces_exitMonitor (next : UInt32) : Paces (exitMonitor next) := by
  refine (paces_fromStack _).bind fun ref => ?_
  split
  · exact paces_raiseNull _
  · refine (paces_exitLock trivial).bind fun released => ?_
    split
    · exact paces_proceed _
    · exact paces_raise _ _

/-! ## Execution -/

theorem paces_ofDecodeFault (id : MethodId) (decodeFault : DecodeFault) :
    PacesIn scope (ofDecodeFault id decodeFault : Guest α) := by
  refine PacesIn.get.bind fun machine => ?_
  cases decodeFault with
  | outside => exact paces_fault _
  | unknown => exact paces_fatal _
  | notWidenable => exact paces_fault _

theorem paces_ofDecode (id : MethodId) (decoded : Except DecodeFault α) :
    PacesIn scope (ofDecode id decoded) := by
  cases decoded with
  | ok value => exact .pure _
  | error decodeFault => exact paces_ofDecodeFault id decodeFault

theorem paces_compute (next : UInt32) (change : Stack → Stack) :
    PacesIn scope (compute next change) :=
  PacesIn.bind (paces_modifyExec fun _ => ⟨rfl, rfl, rfl⟩) fun _ => .pure _

theorem paces_divide (next : UInt32) (change : Stack → Bool × Stack) :
    PacesIn scope (divide next change) := by
  refine (paces_fromStack _).bind fun divided => ?_
  split
  · exact paces_proceed _
  · exact paces_raise _ _

theorem paces_jumpBy (id : MethodId) (pc : UInt32) (offset : Except DecodeFault UInt32) :
    PacesIn scope (jumpBy id pc offset) :=
  (paces_ofDecode id offset).bind fun _ => paces_proceed _

/-- Instructions that touch neither frames nor locks. -/
theorem paces_execute_of_plain {instr : Instr} (plain : instr.isPlain = true) (reentry : Reentry)
    (id : MethodId) (code : Array UInt8) (pc next : UInt32) :
    PacesIn scope (execute reentry id code pc next instr) := by
  cases instr with
  | nop => exact paces_proceed _
  | constant index => exact paces_pushConstant _ _ _
  | load | store | increment => exact PacesIn.get.bind fun _ => paces_compute _ _
  | arrayLoad => exact paces_loadElement.bind fun _ => paces_proceed _
  | arrayStore kind => exact (paces_storeElement kind).bind fun _ => paces_proceed _
  | intOp | longOp => exact paces_divide _ _
  | branch condition =>
      refine (paces_fromStack _).bind fun taken => ?_
      split
      · exact paces_jumpBy _ _ _
      · exact paces_proceed _
  | jump far => exact paces_jumpBy _ _ _
  | jumpSubroutine far => exact (paces_onStack _).bind fun _ => paces_jumpBy _ _ _
  | returnSubroutine index => exact PacesIn.get.bind fun _ => paces_proceed _
  | tableSwitch | lookupSwitch => exact (paces_fromStack _).bind fun _ => paces_jumpBy _ _ _
  | getField index => exact paces_getField _ _ _
  | putField index => exact paces_setField _ _ _
  | invokeDynamic => exact paces_mismatch _
  | newArray element => exact paces_pushPrimitiveArray _ _
  | newRefArray index => exact paces_pushRefArray _ _ _
  | newMultiArray index dimensions =>
      have pushes : PacesIn scope (do
          let cls ← resolveClass id.owner index
          pushNestedArray cls dimensions.toNat
          proceed next : Guest Step) :=
        (paces_resolveClass _ _).bind fun _ => (paces_pushNestedArray _ _).bind fun _ =>
          paces_proceed _
      rw [execute]
      split
      · exact PacesIn.get.bind fun _ => (paces_fault _).bind fun _ => pushes
      · exact pushes
  | arrayLength => exact paces_arrayLength.bind fun _ => paces_proceed _
  | throwRef =>
      refine (paces_fromStack _).bind fun ref => ?_
      split
      · exact .throw _
      · exact paces_raiseNull _
  | checkCast index => exact paces_checkCast _ _ _
  | instanceOf index => exact paces_testInstance _ _ _
  | leave | getStatic | putStatic | invoke | invokeStatic | newObject | enterMonitor
  | exitMonitor => cases plain
  | _ =>
      rw [execute]
      exact paces_compute _ _

theorem paces_execute {reentry : Reentry} (paces : reentry.Paces) (id : MethodId)
    (code : Array UInt8) (pc next : UInt32) (instr : Instr) :
    Paces (execute reentry id code pc next instr) := by
  cases plain : instr.isPlain with
  | true => exact paces_execute_of_plain plain _ _ _ _ _
  | false =>
      cases instr with
      | leave kind =>
          cases kind with
          | none => exact paces_returnFromFrame _
          | some kind => exact (paces_fromStack _).bind fun _ => paces_returnFromFrame _
      | getStatic index => exact paces_getStatic trivial _ _ _ _
      | putStatic index => exact paces_setStatic trivial _ _ _ _
      | invoke mode index => exact paces_invokeInstance paces _ _ _ _ _
      | invokeStatic index => exact paces_invokeStatic paces _ _ _ _
      | newObject index => exact paces_pushInstance trivial _ _ _ _
      | enterMonitor => exact paces_enterMonitor _
      | exitMonitor => exact paces_exitMonitor _
      | _ => cases plain

/-! ## Stops -/

end Guest

namespace Machine

variable (machine : Machine)

theorem shapes_stopBefore (reason : StopReason) (id : MethodId) (pc : UInt32) :
    ShapedIn scope machine (machine.stopBefore reason id pc).2 := by
  rw [stopBefore]
  dsimp only
  split <;> exact .single (.aside ⟨⟨rfl, rfl, rfl⟩, rfl⟩ rfl rfl rfl rfl)

theorem shapes_checkStop (id : MethodId) (pc : UInt32) :
    ShapedIn scope machine (machine.checkStop id pc).2 := by
  rw [checkStop]
  split
  · dsimp only
    split
    next reason debugger _ =>
        have asked : ShapedIn scope machine { machine with debugger } :=
          .single (.aside ⟨⟨rfl, rfl, rfl⟩, rfl⟩ rfl rfl rfl rfl)
        exact asked.trans (shapes_stopBefore _ reason id pc)
    next => exact .single (.aside ⟨⟨rfl, rfl, rfl⟩, rfl⟩ rfl rfl rfl rfl)
  · exact .refl

theorem shapes_stopOnThrow (ref : Ref) : ShapedIn scope machine (machine.stopOnThrow ref).2 := by
  rw [stopOnThrow]
  split
  · split
    · dsimp only
      split <;> exact .single (.aside ⟨⟨rfl, rfl, rfl⟩, rfl⟩ rfl rfl rfl rfl)
    · exact .refl
  · exact .refl

end Machine

namespace Guest

theorem paces_takeResumed (id : MethodId) (pc : UInt32) : PacesIn scope (takeResumed id pc) := by
  refine PacesIn.get.bind fun machine => ?_
  split
  · exact .pure _
  · exact PacesIn.bind (paces_modifyExec fun _ => ⟨rfl, rfl, rfl⟩) fun _ => .pure _

theorem paces_underBreakpoint (id : MethodId) (pc : UInt32) (resumed : Bool) :
    PacesIn scope (underBreakpoint id pc resumed) := by
  refine PacesIn.get.bind fun machine => ?_
  split
  · exact paces_fatal _
  · split
    · exact .pure _
    · refine PacesIn.bind (.modifyGet fun machine => machine.shapes_stopBefore _ id pc)
        fun stopped => ?_
      split <;> exact .pure _

theorem paces_fetch (id : MethodId) (pc : UInt32) (byte : UInt8) :
    PacesIn scope (fetch id pc byte) := by
  have fetches : ∀ resumed, PacesIn scope (if byte = Opcode.breakpoint.byte then
      underBreakpoint id pc resumed else pure (some byte) : Guest (Option UInt8)) := by
    intro resumed
    split
    · exact paces_underBreakpoint id pc resumed
    · exact .pure _
  refine (paces_takeResumed id pc).bind fun resumed => ?_
  dsimp only
  split
  · refine PacesIn.bind (.modifyGet fun machine => machine.shapes_checkStop id pc) fun stopped => ?_
    split
    · exact .pure _
    · exact fetches resumed
  · exact fetches resumed

section

variable {reentry : Reentry} (paces : reentry.Paces)

include paces

theorem paces_executeByte (id : MethodId) (code : Array UInt8) (pc : UInt32) (byte : UInt8) :
    Paces (executeByte reentry id code pc byte) := by
  rw [executeByte]
  split
  · exact paces_ofDecodeFault _ _
  · exact (paces_ofDecode _ _).bind fun _ => paces_execute paces _ _ _ _ _

theorem paces_step : Paces (step reentry) := by
  refine PacesIn.get.bind fun machine => ?_
  split
  · exact paces_fault _
  · refine (paces_ofDecode _ _).bind fun byte => (paces_fetch _ _ _).bind fun fetched => ?_
    split
    · exact .pure _
    · exact paces_executeByte paces _ _ _ _

end

end Guest

end Jvm
