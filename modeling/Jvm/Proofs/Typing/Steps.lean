import Mathlib
import Jvm.Proofs.Typing.Elements

/-!
# Steps that keep elements of the classes of arrays
-/

namespace Jvm

open Std.Do

set_option mvcgen.warning false

namespace Machine

/-- Whether the elements of arrays suit them after a step if they did before, however it ends. -/
abbrev KeepsTyped {ε α : Type} (step : EStateM ε Machine α) : Prop :=
  ⦃fun machine => ⌜machine.Typed⌝⦄ step
  ⦃post⟨fun _ machine => ⌜machine.Typed⌝, fun _ machine => ⌜machine.Typed⌝⟩⦄

theorem keeps_iff {ε α : Type} {step : EStateM ε Machine α} :
    KeepsTyped step ↔ ∀ machine, machine.Typed →
      Ends step machine (fun _ after => after.Typed) fun _ after => after.Typed := by
  simp only [KeepsTyped, Triple.iff, SPred.entails_cons, SPred.entails_nil]
  refine forall_congr' fun machine => imp_congr_right fun _ => ?_
  simp only [wp, Ends, PredTrans.apply, EStateM.run]
  cases step machine <;> exact Iff.rfl

namespace KeepsTyped

variable {ε α β : Type} {step : EStateM ε Machine α}

protected theorem pure (value : α) : KeepsTyped (pure value : EStateM ε Machine α) :=
  keeps_iff.mpr fun _ typed => ends_pure.mpr typed

theorem modifyGet {change : Machine → α × Machine}
    (changes : ∀ machine : Machine, machine.Typed → (change machine).2.Typed) :
    KeepsTyped (MonadStateOf.modifyGet change : EStateM ε Machine α) :=
  keeps_iff.mpr fun machine typed => ends_modifyGet.mpr (changes machine typed)

theorem modify {change : Machine → Machine}
    (changes : ∀ machine : Machine, machine.Typed → (change machine).Typed) :
    KeepsTyped (modify change : EStateM ε Machine PUnit) :=
  keeps_iff.mpr fun machine typed => ends_modify.mpr (changes machine typed)

variable (keeps : KeepsTyped step)

include keeps

theorem ends {machine : Machine} (typed : machine.Typed) :
    Ends step machine (fun _ after => after.Typed) fun _ after => after.Typed :=
  keeps_iff.mp keeps machine typed

protected theorem bind {next : α → EStateM ε Machine β} (rest : ∀ value, KeepsTyped (next value)) :
    KeepsTyped (step >>= next) :=
  keeps_iff.mpr fun _ typed => ends_bind.mpr
    ((keeps.ends typed).mono (fun value _ => (rest value).ends) fun _ _ => id)

end KeepsTyped

theorem Typed.modifyExec {machine : Machine} (typed : machine.Typed)
    (change : Execution → Execution) : (machine.modifyExec change).Typed :=
  typed.of_same rfl rfl rfl

theorem Typed.modifyStack {machine : Machine} (typed : machine.Typed) (change : Stack → Stack) :
    (machine.modifyStack change).Typed :=
  typed.of_same rfl rfl rfl

/-! ## Locks -/

namespace Typed

variable {machine : Machine} (typed : machine.Typed)

include typed

theorem setMonitor (monitor : Monitor) (lock : Lock) : (machine.setMonitor monitor lock).Typed := by
  cases lock with
  | object ref =>
      exact typed.of_sameArrays (machine.sameShapes_setMonitor monitor (.object ref))
        ⟨rfl, rfl, rfl⟩
        (.modify _ ref (fun _ => rfl) fun _ => rfl)
  | cls id => exact typed.modifyClass id fun _ => rfl

theorem enterLock (lock : Lock) : (machine.enterLock lock).2.Typed := by
  rw [Machine.enterLock]
  split
  · exact typed
  · split
    · exact typed.setMonitor _ lock
    · exact typed

theorem exitLock (lock : Lock) : (machine.exitLock lock).2.Typed := by
  rw [Machine.exitLock]
  split
  · exact typed.setMonitor _ lock
  · exact typed

theorem releaseLock (lock : Option Lock) : (Guest.releaseLock lock machine).Typed := by
  cases lock with
  | some lock => exact typed.exitLock lock
  | none => exact typed

theorem leaveInitializer (id : MethodId) (succeeded : Bool) :
    (machine.leaveInitializer id succeeded).Typed := by
  rw [Machine.leaveInitializer]
  split
  · refine typed.of_sameFixed rfl ⟨(ClassTable.Alike.finishInitialization ..).bounded,
      (ClassTable.Alike.finishInitialization ..).found,
      ClassTable.view_finishInitialization Class.fixed fun _ _ => rfl⟩
  · exact typed

theorem resolveVirtual (receiver : ClassId) (resolved : MethodId) :
    { machine with registry := (machine.registry.resolveVirtual receiver resolved).2 }.Typed := by
  rw [Registry.resolveVirtual]
  split
  · exact typed
  · split
    · exact typed.of_sameFixed rfl ⟨rfl, fun _ => rfl, fun _ => rfl⟩
    · exact typed

theorem dropFrame (resume : FrameContext → UInt32) : (machine.dropFrame resume).Typed :=
  typed.modifyExec _

theorem abandonFrame (id : MethodId) : (machine.abandonFrame id).Typed := by
  rw [Machine.abandonFrame]
  split
  · exact ((typed.exitLock _).leaveInitializer id false).dropFrame _
  · exact (typed.leaveInitializer id false).dropFrame _

theorem switchBack (id : ExecId) : (machine.switchBack id).2.Typed := by
  rw [Machine.switchBack]
  split
  next previous _ found =>
      obtain ⟨_, _, same⟩ := Option.map_eq_some_iff.mp found
      cases same
      exact typed.of_same rfl rfl rfl
  next => exact typed.of_same rfl rfl rfl

theorem spawn : machine.spawn.Typed := typed.of_same rfl rfl rfl

theorem write (descriptor : Int32) (text : String) : (machine.write descriptor text).Typed := by
  rw [Machine.write]
  split <;> exact typed.of_same rfl rfl rfl

theorem reportStop (reason : StopReason) (id : MethodId) (pc : UInt32) :
    (machine.reportStop reason id pc).2.Typed :=
  typed.of_same rfl rfl rfl

theorem stopBefore (reason : StopReason) (id : MethodId) (pc : UInt32) :
    (machine.stopBefore reason id pc).2.Typed := by
  have reported := typed.reportStop reason id pc
  rw [Machine.stopBefore]
  dsimp only
  split
  · exact reported.of_same rfl rfl rfl
  · exact reported

theorem checkStop (id : MethodId) (pc : UInt32) : (machine.checkStop id pc).2.Typed := by
  rw [Machine.checkStop]
  dsimp only
  split
  · split
    next debugger _ =>
        have asked : { machine with debugger }.Typed := typed.of_same rfl rfl rfl
        exact asked.stopBefore _ id pc
    next => exact typed.of_same rfl rfl rfl
  · exact typed

theorem stopOnThrow (ref : Ref) : (machine.stopOnThrow ref).2.Typed := by
  rw [Machine.stopOnThrow]
  split
  · split
    · dsimp only
      have reported :=
        typed.reportStop (.exception ‹_› (machine.throwableMessage? ref)) ‹_› machine.exec.pc
      split
      · exact reported.of_same rfl rfl rfl
      · exact reported
    · exact typed
  · exact typed

end Typed

end Machine

open Machine

namespace Guest

variable {α : Type}

@[spec] theorem keeps_fatal (error : Error) : KeepsTyped (fatal error : Guest α) := by
  mvcgen [fatal]

@[spec] theorem keeps_fault (fault : StateFault) : KeepsTyped (Guest.fault fault : Guest α) := by
  mvcgen [Guest.fault]

@[spec] theorem keeps_ofLoad (loaded : Except LoadError α) : KeepsTyped (ofLoad loaded) := by
  mvcgen [ofLoad]

@[spec] theorem keeps_require (value : Option α) (missing : StateFault) :
    KeepsTyped (require value missing) := by
  mvcgen [require]

@[spec] theorem keeps_onStack (change : Stack → Stack) : KeepsTyped (onStack change) := by
  mvcgen [onStack]
  exact Typed.modifyStack ‹_› _

@[spec] theorem keeps_fromStack (take : Stack → α × Stack) : KeepsTyped (fromStack take) :=
  keeps_iff.mpr fun _ typed => Ends.of_ok rfl (typed.of_same rfl rfl rfl)

/-! ## Allocation -/

@[spec] theorem keeps_collect : KeepsTyped collect :=
  keeps_iff.mpr fun _ typed => ends_modifyGet.mpr typed.collectGarbage

@[spec] theorem keeps_loadRaw (name : String) : KeepsTyped (loadRaw name) :=
  keeps_iff.mpr fun machine typed => Ends.of_ok (run_loadRaw name machine) (typed.load name)

/-- An object without elements is allocated. -/
theorem keeps_alloc {payload : Nat} {make : Int32 → Object}
    (sized : ∀ hash, (make hash).payload = payload)
    (fresh : ∀ hash, (make hash).marked = false)
    (bare : ∀ hash data ref, (make hash).array? = some data → ¬data.Contains ref) :
    KeepsTyped (alloc payload make) := by
  refine keeps_iff.mpr fun machine typed =>
    ends_alloc sized typed (fun typed => typed.collectGarbage) ?_
  intro between hash drawn typed fits
  exact typed.insert drawn fits (fresh hash) fun data ref held contains =>
    (bare hash data ref held contains).elim

@[spec] theorem keeps_newInstance (id : ClassId) : KeepsTyped (newInstance id) := by
  refine keeps_iff.mpr fun machine typed => ?_
  rw [newInstance, ends_bind, ends_get]
  refine (keeps_alloc (fun _ => congrArg (· * 4) (Fields.size_ofSize _)) (fun _ => rfl) ?_).ends typed
  intro _ _ _ held
  cases held

/-- Numbers are no elements that have to suit. -/
@[spec] theorem keeps_newBytes (id : ClassId) (bytes : Array Int8) :
    KeepsTyped (newArrayOf id (.bytes bytes)) := by
  refine keeps_alloc (fun _ => rfl) (fun _ => rfl) ?_
  rintro _ _ _ ⟨⟩ ⟨_, ⟨⟩, _⟩

@[spec] theorem keeps_newZeroArray (id : ClassId) (size : Nat) :
    KeepsTyped (newZeroArray id size) := by
  refine keeps_iff.mpr fun machine typed => ?_
  rw [newZeroArray, ends_bind, ends_get]
  dsimp only
  split
  · exact (keeps_fault _).ends typed
  next info _ =>
      have sized (hash : Int32) :
          Object.payload { cls := id, hash, body := .array (.ofSize info.element size) } =
            size * info.element.size :=
        ArrayData.byteSize_ofSize _ _
      refine (keeps_alloc sized (fun _ => rfl) ?_).ends typed
      rintro _ _ ref ⟨⟩
      exact ArrayData.not_contains_ofSize info.element size ref

@[spec] theorem keeps_newCompactString (bytes : List Int8) (coder : Int8) :
    KeepsTyped (newCompactString bytes coder) := by
  mvcgen [newCompactString]
  exact Typed.modifyFields ‹_› _ fun fields => by
    rw [Fields.setInt, Fields.setRef, Fields.size_set, Fields.size_set]

@[spec] theorem keeps_newString (text : String) : KeepsTyped (newString text) := by
  mvcgen [newString]

@[spec] theorem keeps_newStringOfUnits (units : List UInt16) :
    KeepsTyped (newStringOfUnits units) := by
  mvcgen [newStringOfUnits]

@[spec] theorem keeps_newThrowable (className : String) (message : Option String) :
    KeepsTyped (newThrowable className message) := by
  mvcgen [newThrowable]
  exact Typed.modifyFields ‹_› _ fun fields => by rw [Fields.setRef, Fields.size_set]

@[spec] theorem keeps_raise (kind : ExceptionKind) (message : Option String) :
    KeepsTyped (raise kind message : Guest α) := by
  mvcgen [raise]

@[spec] theorem keeps_raiseNull (message : String) : KeepsTyped (raiseNull message : Guest α) := by
  mvcgen [raiseNull]

@[spec] theorem keeps_classOf (ref : Ref) : KeepsTyped (classOf ref) := by
  mvcgen [classOf]

@[spec] theorem keeps_newArray (id : ClassId) (size : Int32) : KeepsTyped (newArray id size) := by
  mvcgen [newArray]

@[spec] theorem keeps_internString (text : String) : KeepsTyped (internString text) := by
  mvcgen [internString]
  exact (Typed.setSticky ‹_› _).of_same rfl rfl rfl

@[spec] theorem keeps_internObject? (ref : Ref) : KeepsTyped (internObject? ref) := by
  mvcgen [internObject?]
  exact (Typed.setSticky ‹_› _).of_same rfl rfl rfl

@[spec] theorem keeps_mirror (id : ClassId) : KeepsTyped (mirror id) := by
  mvcgen [mirror]
  refine Typed.modifyClass ?_ id fun _ => rfl
  exact (Typed.modifyFields ‹_› _ fun fields => fields.size_set _ _).setSticky _

/-! ## Constants -/

@[spec] theorem keeps_linking {steps : Registry → α × Registry}
    (links : ∀ machine : Machine, machine.Typed →
      { machine with registry := (steps machine.registry).2 }.Typed) : KeepsTyped (linking steps) :=
  keeps_iff.mpr fun machine typed => Ends.of_ok rfl (links machine typed)

@[spec] theorem keeps_constantAt (id : ClassId) (index : UInt16) :
    KeepsTyped (constantAt id index) := by
  mvcgen [constantAt]

@[spec] theorem keeps_remember (id : ClassId) (index : UInt16) (resolved : Constant) :
    KeepsTyped (remember id index resolved) := by
  mvcgen [remember]
  exact Typed.modifyClass ‹_› _ fun _ => rfl

@[spec] theorem keeps_unresolvable (index : UInt16) (found : Constant) (wanted : ResolutionTarget) :
    KeepsTyped (unresolvable index found wanted : Guest α) := by
  mvcgen [unresolvable]

@[spec] theorem keeps_linkClass (id : ClassId) (index : UInt16) :
    KeepsTyped (linkClass id index) := by
  mvcgen [linkClass]

@[spec] theorem keeps_orMissingClass (loaded : Except LoadError ClassId) :
    KeepsTyped (orMissingClass loaded) := by
  mvcgen [orMissingClass]

@[spec] theorem keeps_resolveClass (id : ClassId) (index : UInt16) :
    KeepsTyped (resolveClass id index) := by
  mvcgen [resolveClass]

@[spec] theorem keeps_loadClass (name : String) : KeepsTyped (loadClass name) := by
  mvcgen [loadClass]

@[spec] theorem keeps_arrayClassOf (component : ClassId) : KeepsTyped (arrayClassOf component) := by
  mvcgen [arrayClassOf]
  exact fun _ typed => typed.arrayOf component

@[spec] theorem keeps_resolveField (id : ClassId) (index : UInt16) :
    KeepsTyped (resolveField id index) := by
  mvcgen [resolveField]

@[spec] theorem keeps_resolveMethod (id : ClassId) (index : UInt16) :
    KeepsTyped (resolveMethod id index) := by
  mvcgen [resolveMethod, findMethod]

@[spec] theorem keeps_resolveString (id : ClassId) (index : UInt16) :
    KeepsTyped (resolveString id index) := by
  mvcgen [resolveString]

theorem keeps_ofHost {step : Host α} (keeps : KeepsTyped step) : KeepsTyped (ofHost step) := by
  refine keeps_iff.mpr fun machine typed => ?_
  have ends := keeps.ends typed
  rw [Ends] at ends ⊢
  rw [ofHost]
  cases ran : step machine <;> exact (ran ▸ ends : _)

/-! ## Locks and frames -/

@[spec] theorem keeps_onThrow {step : Guest α} {change : Machine → Machine}
    (keeps : KeepsTyped step) (changes : ∀ machine : Machine, machine.Typed → (change machine).Typed) :
    KeepsTyped (onThrow step change) := by
  refine keeps_iff.mpr fun machine typed => ?_
  have ends := keeps.ends typed
  rw [Ends] at ends ⊢
  rw [onThrow]
  cases ran : step machine with
  | ok value after => exact (ran ▸ ends : _)
  | error raised after =>
      rw [ran] at ends
      exact changes after ends

@[spec] theorem keeps_enterLock (lock : Lock) : KeepsTyped (enterLock lock) := by
  mvcgen [enterLock]
  exact Typed.enterLock ‹_› lock

@[spec] theorem keeps_exitLock (lock : Lock) : KeepsTyped (exitLock lock) := by
  mvcgen [exitLock]
  exact Typed.exitLock ‹_› lock

@[spec] theorem keeps_takeLock (lock : Option Lock) : KeepsTyped (takeLock lock) := by
  mvcgen [takeLock]

@[spec] theorem keeps_pushFrame (id : MethodId) (callerPc returnPc : UInt32) :
    KeepsTyped (pushFrame id callerPc returnPc) := by
  mvcgen [pushFrame]
  have typed := ‹Typed _›
  exact typed.of_same rfl rfl rfl

@[spec] theorem keeps_handOver (id : MethodId) (value : Value) : KeepsTyped (handOver id value) := by
  mvcgen [handOver, -Spec.modifyGet_EStateM, KeepsTyped.modifyGet] <;> intro _ typed
  all_goals first
    | exact typed.leaveInitializer _ true
    | exact typed.of_same rfl rfl rfl

@[spec] theorem keeps_returnFromFrame (value : Value) : KeepsTyped (returnFromFrame value) := by
  mvcgen [returnFromFrame]

/-! ## Initialization -/

@[spec] theorem keeps_initialValue (id : ClassId) (kind : Kind) (index : UInt16) :
    KeepsTyped (initialValue id kind index) := by
  mvcgen [initialValue]

@[spec] theorem keeps_putStatic (id : ClassId) (slot : Nat) (value : Value) :
    KeepsTyped (putStatic id slot value) := by
  mvcgen [putStatic]
  exact Typed.modifyClass ‹_› _ fun _ => rfl

@[spec] theorem keeps_storeInitialValues (id : ClassId) (values : List (Field × UInt16)) :
    KeepsTyped (storeInitialValues id values) := by
  induction values with
  | nil => mvcgen [storeInitialValues]
  | cons value rest ih => mvcgen [storeInitialValues, ih]

@[spec] theorem keeps_prepareStatics (id : ClassId) : KeepsTyped (prepareStatics id) := by
  mvcgen [prepareStatics]
  exact Typed.modifyClass ‹_› _ fun _ => rfl

@[spec] theorem keeps_setInitState (id : ClassId) (state : InitState) :
    KeepsTyped (setInitState id state) := by
  mvcgen [setInitState]
  exact Typed.modifyClass ‹_› _ fun _ => rfl

theorem typed_markFailed (id : ClassId) {machine : Machine} (typed : machine.Typed) :
    (markFailed id machine).Typed :=
  typed.modifyClass id fun _ => rfl

@[spec] theorem keeps_pushInitializer (id : ClassId) (pc : UInt32) :
    KeepsTyped (pushInitializer id pc) := by
  mvcgen [pushInitializer]
  exact fun _ => typed_markFailed id

@[spec] theorem keeps_initializeChain (chain : List ClassId) (pc : UInt32) :
    KeepsTyped (initializeChain chain pc) := by
  induction chain generalizing pc with
  | nil => mvcgen [initializeChain]
  | cons id above ih =>
      mvcgen [initializeChain, ih]
      intro machine typed
      split
      · exact typed
      · exact typed_markFailed id typed

@[spec] theorem keeps_ensureInitialized (id : ClassId) (pc : UInt32) :
    KeepsTyped (ensureInitialized id pc) := by
  mvcgen [ensureInitialized]

/-! ## Unwinding -/

@[spec] theorem keeps_findHandlerIn (owner : ClassId) (pc : UInt32) (thrown : ClassId)
    (handlers : List Handler) : KeepsTyped (findHandlerIn owner pc thrown handlers) := by
  induction handlers with
  | nil => mvcgen [findHandlerIn]
  | cons handler rest ih => mvcgen [findHandlerIn, ih]

@[spec] theorem keeps_findHandler (id : MethodId) (pc : UInt32) (thrown : ClassId) :
    KeepsTyped (findHandler id pc thrown) := by
  mvcgen [findHandler]

@[spec] theorem keeps_enterHandler (id : MethodId) (handlerPc : UInt32) (ref : Ref) :
    KeepsTyped (enterHandler id handlerPc ref) := by
  mvcgen [enterHandler]
  have typed := ‹Typed _›
  exact typed.of_same rfl rfl rfl

@[spec] theorem keeps_unwindFrames (ref : Ref) (thrown : ClassId) (fuel : Nat)
    (trace : List (MethodId × UInt32)) : KeepsTyped (unwindFrames ref thrown fuel trace) := by
  induction fuel generalizing trace with
  | zero => mvcgen [unwindFrames]
  | succ fuel ih =>
      mvcgen [unwindFrames, ih, -Spec.modifyGet_EStateM, KeepsTyped.modifyGet] <;> intro _ typed
      · exact typed.modifyExec _
      · exact typed.abandonFrame _

@[spec] theorem keeps_unwind (ref : Ref) : KeepsTyped (unwind ref) := by
  mvcgen [unwind]

/-! ## Members and types -/

@[spec] theorem keeps_proceed (pc : UInt32) : KeepsTyped (proceed pc) := by
  mvcgen [proceed]
  have typed := ‹Typed _›
  exact typed.of_same rfl rfl rfl

@[spec] theorem keeps_mismatch (message : String) : KeepsTyped (mismatch message : Guest α) := by
  mvcgen [mismatch]

@[spec] theorem keeps_staticField? (id : ClassId) (index : UInt16) (pc : UInt32) :
    KeepsTyped (staticField? id index pc) := by
  mvcgen [staticField?]

@[spec] theorem keeps_getStatic (id : ClassId) (index : UInt16) (pc next : UInt32) :
    KeepsTyped (getStatic id index pc next) := by
  mvcgen [getStatic]

@[spec] theorem keeps_setStatic (id : ClassId) (index : UInt16) (pc next : UInt32) :
    KeepsTyped (setStatic id index pc next) := by
  mvcgen [setStatic]

@[spec] theorem keeps_instanceField (id : ClassId) (index : UInt16) :
    KeepsTyped (instanceField id index) := by
  mvcgen [instanceField]

@[spec] theorem keeps_getField (id : ClassId) (index : UInt16) (next : UInt32) :
    KeepsTyped (getField id index next) := by
  mvcgen [getField]

@[spec] theorem keeps_setField (id : ClassId) (index : UInt16) (next : UInt32) :
    KeepsTyped (setField id index next) := by
  mvcgen [setField]
  all_goals exact Typed.modifyFields ‹_› _ fun fields => fields.size_write _ _

@[spec] theorem keeps_selectTarget (mode : CallMode) (receiver : Ref) (resolved : MethodId) :
    KeepsTyped (selectTarget mode receiver resolved) := by
  mvcgen [selectTarget]
  all_goals exact fun _ typed => typed.resolveVirtual _ resolved

@[spec] theorem keeps_pushInstance (id : ClassId) (index : UInt16) (pc next : UInt32) :
    KeepsTyped (pushInstance id index pc next) := by
  mvcgen [pushInstance]

@[spec] theorem keeps_pushArray (id : ClassId) (count : Slot) (next : UInt32) :
    KeepsTyped (pushArray id count next) := by
  mvcgen [pushArray]

@[spec] theorem keeps_pushPrimitiveArray (code : UInt8) (next : UInt32) :
    KeepsTyped (pushPrimitiveArray code next) := by
  mvcgen [pushPrimitiveArray]

@[spec] theorem keeps_pushRefArray (id : ClassId) (index : UInt16) (next : UInt32) :
    KeepsTyped (pushRefArray id index next) := by
  mvcgen [pushRefArray]

@[spec] theorem keeps_checkCast (id : ClassId) (index : UInt16) (next : UInt32) :
    KeepsTyped (checkCast id index next) := by
  mvcgen [checkCast]

@[spec] theorem keeps_testInstance (id : ClassId) (index : UInt16) (next : UInt32) :
    KeepsTyped (testInstance id index next) := by
  mvcgen [testInstance]

@[spec] theorem keeps_pushConstant (id : ClassId) (index : UInt16) (next : UInt32) :
    KeepsTyped (pushConstant id index next) := by
  mvcgen [pushConstant]

@[spec] theorem keeps_enterMonitor (next : UInt32) : KeepsTyped (enterMonitor next) := by
  mvcgen [enterMonitor]

@[spec] theorem keeps_exitMonitor (next : UInt32) : KeepsTyped (exitMonitor next) := by
  mvcgen [exitMonitor]

/-! ## Arrays -/

@[spec] theorem keeps_arrayOperands (action : String) : KeepsTyped (arrayOperands action) := by
  mvcgen [arrayOperands]

@[spec] theorem keeps_loadElement : KeepsTyped loadElement := by
  mvcgen [loadElement]

@[spec] theorem keeps_arrayLength : KeepsTyped arrayLength := by
  mvcgen [arrayLength]

@[spec] theorem keeps_popCounts (remaining : Nat) (counts : List Int32) :
    KeepsTyped (popCounts remaining counts) := by
  induction remaining generalizing counts with
  | zero => mvcgen [popCounts]
  | succ remaining ih => mvcgen [popCounts, ih]

/-! ## Instructions -/

@[spec] theorem keeps_ofDecodeFault (id : MethodId) (decodeFault : DecodeFault) :
    KeepsTyped (ofDecodeFault id decodeFault : Guest α) := by
  mvcgen [ofDecodeFault]

@[spec] theorem keeps_ofDecode (id : MethodId) (decoded : Except DecodeFault α) :
    KeepsTyped (ofDecode id decoded) := by
  mvcgen [ofDecode]

@[spec] theorem keeps_compute (next : UInt32) (change : Stack → Stack) :
    KeepsTyped (compute next change) := by
  mvcgen [compute]
  have typed := ‹Typed _›
  exact typed.of_same rfl rfl rfl

@[spec] theorem keeps_divide (next : UInt32) (change : Stack → Bool × Stack) :
    KeepsTyped (divide next change) := by
  mvcgen [divide]

@[spec] theorem keeps_jumpBy (id : MethodId) (pc : UInt32) (offset : Except DecodeFault UInt32) :
    KeepsTyped (jumpBy id pc offset) := by
  mvcgen [jumpBy]

@[spec] theorem keeps_takeResumed (id : MethodId) (pc : UInt32) :
    KeepsTyped (takeResumed id pc) := by
  mvcgen [takeResumed]
  have typed := ‹Typed _›
  exact typed.of_same rfl rfl rfl

@[spec] theorem keeps_underBreakpoint (id : MethodId) (pc : UInt32) (resumed : Bool) :
    KeepsTyped (underBreakpoint id pc resumed) := by
  mvcgen [underBreakpoint]
  have stopped := Typed.stopBefore ‹_› .breakpoint id pc
  split <;> exact stopped

@[spec] theorem keeps_fetch (id : MethodId) (pc : UInt32) (byte : UInt8) :
    KeepsTyped (fetch id pc byte) := by
  have fetches (resumed : Bool) : KeepsTyped (if byte = Opcode.breakpoint.byte then
      underBreakpoint id pc resumed else pure (some byte) : Guest (Option UInt8)) := by
    split
    · exact keeps_underBreakpoint id pc resumed
    · exact .pure _
  refine (keeps_takeResumed id pc).bind fun resumed => ?_
  dsimp only
  split
  · refine KeepsTyped.bind (.modifyGet fun _ typed => typed.checkStop id pc) fun stopped => ?_
    split
    · exact .pure _
    · exact fetches resumed
  · exact fetches resumed

end Guest

/-! ## Natives -/

open Guest

namespace Printed

@[spec] theorem keeps_toObject (printed : Printed) (arguments : NativeArgs) (index : Nat) :
    KeepsTyped (printed.toObject arguments index) := by
  mvcgen [toObject]

end Printed

namespace Guest

@[spec] theorem keeps_nonNull (ref : Option Ref) (what : String) :
    KeepsTyped (nonNull ref what) := by
  mvcgen [nonNull]

@[spec] theorem keeps_unitsOf (ref : Option Ref) : KeepsTyped (unitsOf ref) := by
  mvcgen [unitsOf]

end Guest

namespace StringNative

@[spec] theorem keeps_unitAt (units : List UInt16) (index : Int32) :
    KeepsTyped (unitAt units index) := by
  mvcgen [unitAt]

@[spec] theorem keeps_textHash (receiver : Ref) : KeepsTyped (textHash receiver) := by
  mvcgen [textHash]
  exact Typed.modifyFields ‹_› _ fun fields => fields.size_set _ _

@[spec] theorem keeps_join (receiver other : Option Ref) : KeepsTyped (join receiver other) := by
  mvcgen [join]

@[spec] theorem keeps_run (native : StringNative) (arguments : NativeArgs) :
    KeepsTyped (native.run arguments) := by
  mvcgen [run]

end StringNative

namespace PrintNative

@[spec] theorem keeps_run (native : PrintNative) (arguments : NativeArgs) :
    KeepsTyped (native.run arguments) := by
  mvcgen [run]
  have typed := ‹Typed _›
  exact typed.write _ _

end PrintNative

namespace ObjectNative

@[spec] theorem keeps_wake (receiver : Ref) : KeepsTyped (wake receiver) := by
  mvcgen [wake]

/-- Natives of objects that copy none. -/
theorem keeps_run {native : ObjectNative} (copies : native ≠ .clone) (arguments : NativeArgs) :
    KeepsTyped (native.run arguments) := by
  cases native with
  | clone => exact (copies rfl).elim
  | _ => mvcgen [run]

end ObjectNative

namespace ClassNative

@[spec] theorem keeps_thisClass (arguments : NativeArgs) : KeepsTyped (thisClass arguments) := by
  mvcgen [thisClass]

@[spec] theorem keeps_byName (arguments : NativeArgs) : KeepsTyped (byName arguments) := by
  mvcgen [byName]

@[spec] theorem keeps_superclassMirror (id : ClassId) : KeepsTyped (superclassMirror id) := by
  mvcgen [superclassMirror]

@[spec] theorem keeps_run (native : ClassNative) (arguments : NativeArgs) :
    KeepsTyped (native.run arguments) := by
  mvcgen [run]

end ClassNative

namespace SystemNative

/-- System natives that copy no elements. -/
theorem keeps_run {native : SystemNative} (copies : native ≠ .arraycopy) (arguments : NativeArgs) :
    KeepsTyped (native.run arguments) := by
  cases native with
  | arraycopy => exact (copies rfl).elim
  | _ => mvcgen [run]

end SystemNative

/-! ## Calls of natives -/

namespace Host

variable {α : Type}

@[spec] theorem keeps_fault (fault : StateFault) : KeepsTyped (Host.fault fault : Host α) := by
  mvcgen [Host.fault]

theorem ends_ofGuest {step : Guest α} {machine : Machine}
    (ends : Ends step machine (fun _ after => after.Typed) fun _ after => after.Typed) :
    Ends (ofGuest step) machine (fun _ after => after.Typed) fun _ after => after.Typed := by
  rw [Ends] at ends ⊢
  rw [ofGuest]
  cases ran : step machine with
  | ok value after => exact (ran ▸ ends : _)
  | error raised after =>
      rw [ran] at ends
      cases raised <;> exact ends

theorem keeps_ofGuest {step : Guest α} (keeps : KeepsTyped step) : KeepsTyped (ofGuest step) :=
  keeps_iff.mpr fun _ typed => ends_ofGuest (keeps.ends typed)

@[spec] theorem keeps_unwind (ref : Ref) : KeepsTyped (Host.unwind ref) :=
  keeps_ofGuest (Guest.keeps_unwind ref)

theorem ends_linking {steps : Registry → Except LoadError α × Registry} {machine : Machine}
    (links : { machine with registry := (steps machine.registry).2 }.Typed) :
    Ends (Host.linking steps) machine (fun _ after => after.Typed) fun _ after => after.Typed := by
  rw [Ends, Host.linking]
  generalize steps machine.registry = linked at links ⊢
  obtain ⟨loaded, registry⟩ := linked
  cases loaded <;> exact links

@[spec] theorem keeps_load (name : String) : KeepsTyped (load name) :=
  keeps_iff.mpr fun _ typed => ends_linking (typed.load name)

@[spec] theorem keeps_methodNotFound (owner : ClassId) (name descriptor : String) :
    KeepsTyped (methodNotFound owner name descriptor : Host α) := by
  mvcgen [methodNotFound]

@[spec] theorem keeps_findMethod (owner : ClassId) (name descriptor : String) :
    KeepsTyped (findMethod owner name descriptor) := by
  mvcgen [findMethod]

@[spec] theorem keeps_findStatic (className name descriptor : String) :
    KeepsTyped (findStatic className name descriptor) := by
  mvcgen [findStatic]

end Host

/-- Whether the elements of arrays suit them after the calls that natives make. -/
structure Reentry.KeepsTyped (reentry : Reentry) : Prop where
  enter : ∀ id arguments, Machine.KeepsTyped (reentry.enter id arguments)
  complete : Machine.KeepsTyped reentry.complete

namespace Reentry.KeepsTyped

variable {reentry : Reentry} (keeps : reentry.KeepsTyped)

include keeps

theorem call (id : MethodId) (arguments : List Value) :
    Machine.KeepsTyped (reentry.call id arguments) := by
  have enters := keeps.enter
  have completes := keeps.complete
  mvcgen [Reentry.call, enters, completes]

theorem prepare (id : MethodId) (arguments : List Value) :
    Machine.KeepsTyped (reentry.prepare id arguments) := by
  refine keeps_iff.mpr fun machine typed => ?_
  have entered := (keeps.enter id arguments).ends (typed.spawn)
  rw [Ends] at entered ⊢
  rw [Reentry.prepare_eq]
  cases ran : reentry.enter id arguments machine.spawn with
  | error error after =>
      rw [ran] at entered
      exact Typed.switchBack entered _
  | ok result after =>
      rw [ran] at entered
      cases result with
      | some value => exact (Typed.switchBack entered _).of_same rfl rfl rfl
      | none => exact (Typed.switchBack entered _).of_same rfl rfl rfl

end Reentry.KeepsTyped

namespace ThreadNative

@[spec] theorem keeps_setExecution (thread : Ref) (id : ExecId) :
    KeepsTyped (setExecution thread id) := by
  mvcgen [setExecution]
  exact Typed.modifyFields ‹_› _ fun fields => fields.size_set _ _

@[spec] theorem keeps_pause (millis : Int64) : KeepsTyped (pause millis) := by
  mvcgen [pause]
  have typed := ‹Typed _›
  exact typed.of_same rfl rfl rfl

@[spec] theorem keeps_current : KeepsTyped current := by
  mvcgen [current]
  have typed := ‹Typed _›
  exact typed.of_same rfl rfl rfl

variable {reentry : Reentry} (keeps : reentry.KeepsTyped)

include keeps

theorem keeps_begin (thread : Ref) : KeepsTyped (begin reentry thread) := by
  have prepares (id : MethodId) : KeepsTyped (ofHost (reentry.prepare id [.ref (some thread)])) :=
    keeps_ofHost (keeps.prepare id _)
  mvcgen [begin, launch, prepares]
  all_goals
    have typed := ‹Typed _›
    exact typed.of_same rfl rfl rfl

theorem keeps_run (native : ThreadNative) (arguments : NativeArgs) :
    KeepsTyped (native.run reentry arguments) := by
  have begins := keeps_begin keeps
  mvcgen [run, begins]
  have typed := ‹Typed _›
  exact typed.of_same rfl rfl rfl

end ThreadNative

namespace HostAction

@[spec] theorem keeps_request {α : Type} {step : Host α} (keeps : KeepsTyped step) :
    KeepsTyped (request step) := by
  refine keeps_iff.mpr fun machine typed => ?_
  have ends := keeps.ends typed
  rw [Ends] at ends ⊢
  rw [request]
  cases ran : step machine <;> exact (ran ▸ ends : _)

/-- What a script does keeps what its requests keep. -/
theorem keeps_run {reentry : Reentry} (keeps : reentry.KeepsTyped) (action : HostAction) :
    KeepsTyped (action.run reentry) := by
  have calls := keeps.call
  induction action with
  | finish value => mvcgen [run]
  | raise exception => mvcgen [run]
  | fail error => mvcgen [run]
  | newString text next ih =>
      have made := Host.keeps_ofGuest (Guest.keeps_newString text)
      mvcgen [run, ih, made]
  | invokeStatic owner name descriptor arguments next ih => mvcgen [run, ih, calls]
  | depth exec next ih => mvcgen [run, ih]
  | terminate next ih =>
      mvcgen [run, ih]
      have typed := ‹Typed _›
      exact typed.of_same rfl rfl rfl

end HostAction

/-! ## Slices -/

namespace Machine.Typed

variable {machine : Machine} (typed : machine.Typed)

include typed

theorem releaseLocks (exec : ExecId) : (machine.releaseLocks exec).Typed := by
  have freed : (machine.modifyHeap fun heap => heap.releaseMonitors exec).Typed :=
    typed.of_sameArrays (.releaseMonitors _ exec) ⟨rfl, rfl, rfl⟩ (.releaseMonitors _ exec)
  have alike := machine.alike_releaseLocks exec
  refine freed.of_sameFixed rfl ⟨alike.bounded, alike.found, fun id => ?_⟩
  refine machine.registry.view_map _ Class.fixed (fun cls => ?_) id
  split <;> rfl

theorem leaveInitializers (methods : List MethodId) :
    (methods.foldl (fun machine id => machine.leaveInitializer id false) machine).Typed := by
  induction methods generalizing machine with
  | nil => exact typed
  | cons id rest ih => exact ih (typed.leaveInitializer id false)

theorem abandonExecution : machine.abandonExecution.Typed :=
  ((typed.releaseLocks _).leaveInitializers _).modifyExec _

theorem countStep : machine.countStep.Typed := typed.of_same rfl rfl rfl

theorem protectResult (value : Value) : (machine.protectResult value).Typed := by
  rw [Machine.protectResult.eq_def]
  split
  · exact typed.of_objects rfl rfl rfl ⟨rfl, rfl, rfl⟩
  · exact typed

end Machine.Typed

namespace Host

variable {α : Type}

@[spec] theorem keeps_attempt {step : Guest α} (keeps : KeepsTyped step) :
    KeepsTyped (attempt step) := by
  refine keeps_iff.mpr fun machine typed => ?_
  have ends := keeps.ends typed
  rw [Ends] at ends ⊢
  rw [attempt]
  cases ran : step machine <;> exact (ran ▸ ends : _)

@[spec] theorem keeps_afterStep (ended : Except Throw Step) : KeepsTyped (afterStep ended) := by
  mvcgen [afterStep] <;> have typed := ‹Typed _› <;> have counted := typed.countStep
  · exact counted.of_same rfl rfl rfl
  · exact counted.of_same rfl rfl rfl
  · exact counted
  · exact counted.protectResult _
  · exact counted
  · have stopped := counted.stopOnThrow ‹_›
    split
    · exact stopped
    · mvcgen
  · exact counted.abandonExecution

@[spec] theorem keeps_resetExec : KeepsTyped resetExec := by
  mvcgen [resetExec]
  exact Typed.modifyExec ‹_› _

@[spec] theorem keeps_settle (ended : Except Throw α) : KeepsTyped (settle ended) := by
  mvcgen [settle]

end Host

end Jvm
