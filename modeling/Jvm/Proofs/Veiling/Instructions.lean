import Jvm.Machine.Step
import Jvm.Proofs.Machine.Members
import Jvm.Proofs.Veiling.Frames
import Jvm.Proofs.Veiling.Natives

/-!
# Instructions behind a veil

An instruction reads its own bytes, which are those of the code that it was found in, and
nothing of what is veiled. A call may run a native that does; which one is found by going as
far as the call itself does before it runs it.
-/

namespace Jvm

open Machine

/-- Whether an instruction calls a method or returns from one. -/
def Instr.isCallOrReturn : Instr → Bool
  | .leave _ | .invoke .. | .invokeStatic _ => true
  | _ => false

namespace Guest

/-- The native that a call of a method runs, if it runs one. -/
def called (id : MethodId) : Guest (Option Native) := do
  let machine ← get
  if (machine.method id).isAbstract then pure none
  else if !(← takeLock (callLock? machine id)) then pure none
  else if (machine.method id).isNative then do pure (some (← bindNative id))
  else pure none

/-- The native that an instruction of a method runs, if it runs one. -/
def calledBy (id : MethodId) (pc : UInt32) (instr : Instr) : Guest (Option Native) := do
  match instr with
  | .invoke mode index => do
    let resolved ← resolveMethod id.owner index
    match (← get).exec.stack.peekRef (resolved.argSlots.toNat - 1) with
    | none => pure none
    | some receiver => do called (← selectTarget mode receiver resolved.method)
  | .invokeStatic index => do
    let resolved ← resolveMethod id.owner index
    if ← ensureInitialized resolved.method.owner pc then pure none
    else called resolved.method
  | _ => pure none

/-- The native that the instruction with a first byte runs, if it runs one. -/
def calledAt : MethodId → Array UInt8 → UInt32 → UInt8 → Guest (Option Native) :=
  askedAt none calledBy

/-- Whether what a step finds, if it finds something, is admitted. -/
def Finds (admitted : Native → Prop) (found : Guest (Option Native)) (machine : Machine) : Prop :=
  Ends found machine (fun native _ => ∀ own, native = some own → admitted own) fun _ _ => True

variable {veil : Veil} {α : Type}

/-! ## Calls -/

theorem blind_bindNative (id : MethodId) : Blind veil (bindNative id) := by
  refine .get_bind (fun machine _ => ?_) fun machine _ => ?_
  · simp only [method_veil, cls_veil]
    rfl
  · dsimp only
    split
    · exact .pure _
    · split
      · refine Overlooks.bind (.modify (fun machine covers => ?_) fun machine _ => ?_)
          fun _ => .pure _
        · exact covers_modifyClass covers id.owner _
        · simp only [modifyTable, Machine.veil, Registry.recode, Registry.withTable]
          rw [ClassTable.modifyMethod_recode veil.recoding machine.registry.toClassTable id]
          exact fun _ _ => rfl
      · exact blind_raise _ _

theorem releaseLock_veil (lock : Option Lock) (machine : Machine) :
    releaseLock lock (machine.veil veil) = (releaseLock lock machine).veil veil := by
  cases lock with
  | none => rfl
  | some lock => exact congrArg Prod.snd (machine.exitLock_veil lock)

theorem covers_releaseLock (lock : Option Lock) {machine : Machine} (covers : veil.Covers machine) :
    veil.Covers (releaseLock lock machine) := by
  cases lock with
  | none => exact covers
  | some lock => exact covers_exitLock covers lock

theorem blind_takeLock (lock : Option Lock) : Blind veil (takeLock lock) := by
  cases lock with
  | none => exact .pure _
  | some lock => exact blind_enterLock lock

theorem callLock?_veil (machine : Machine) (id : MethodId) :
    callLock? (machine.veil veil) id = callLock? machine id := by
  rw [callLock?, callLock?, lockOf?_veil, method_veil]
  rfl

section

variable {reentry : Reentry} (refuses : reentry.Refuses) {machine : Machine}
  (covers : veil.Covers machine)

include refuses covers

theorem blindAt_callNative {id : MethodId}
    (admits : Ends (bindNative id) machine (fun native _ => veil.Admits native) fun _ _ => True) :
    BlindAt veil (callNative reentry id) machine := by
  refine .bind (.of_blind (blind_bindNative id) covers) fun native bound covered ran => ?_
  have admitted := ends_of_ok ran admits
  refine BlindAt.get_bind ?_ (.of_blind ?_ covered)
  · simp only [method_veil, methodLabel_veil]
    rfl
  · dsimp only
    split
    · exact blind_fault _
    · exact (Native.blind_run refuses admitted _).bind fun _ => (blind_onStack _).bind fun _ => .pure _

theorem blindAt_invoke {id : MethodId} (admits : Finds veil.Admits (called id) machine)
    (callerPc returnPc : UInt32) : BlindAt veil (invoke reentry id callerPc returnPc) machine := by
  rw [Finds, called, ends_bind, ends_get] at admits
  refine BlindAt.get_bind ?_ ?_
  · simp only [method_veil, methodLabel_veil, callLock?_veil]
    rfl
  dsimp only
  split
  next => exact .of_blind (blind_raise _ _) covers
  next concrete =>
  rw [if_neg concrete, ends_bind] at admits
  refine .bind (.of_blind (blind_takeLock _) covers) fun taken held covered ran => ?_
  have admitted := ends_of_ok ran admits
  split
  next => exact .of_blind (.pure _) covered
  next entered =>
  rw [if_neg entered] at admitted
  split
  next native =>
      rw [if_pos native, ends_bind] at admitted
      have calls : BlindAt veil (callNative reentry id) held :=
        blindAt_callNative refuses covered
          (Ends.mono admitted (fun own _ found => ends_pure.mp found own rfl) fun _ _ _ => trivial)
      refine .bind (blindAt_onThrow calls (fun _ => covers_releaseLock _)
        fun machine _ => releaseLock_veil _ machine) fun value returned covered _ => ?_
      refine .of_blind (Overlooks.bind (.modify (fun machine covers => ?_) fun machine _ => ?_)
        fun _ => .pure _) covered
      · exact covers_releaseLock _ covers
      · rw [releaseLock_veil]
        rfl
  next =>
      exact .of_blind ((blind_onThrow (blind_pushFrame _ _ _) (fun _ => covers_releaseLock _)
        fun machine _ => releaseLock_veil _ machine).bind fun _ => .pure _) covered

end

/-! ## Fields -/

theorem blind_proceed (pc : UInt32) : Blind veil (proceed pc) :=
  Overlooks.bind (blind_modifyExec (fun _ => ⟨rfl, rfl, rfl, fun busy => busy⟩) fun _ => rfl)
    fun _ => .pure _

theorem blind_mismatch (message : String) : Blind veil (mismatch message : Guest α) :=
  blind_raise _ _

theorem blind_staticField? (id : ClassId) (index : UInt16) (pc : UInt32) :
    Blind veil (staticField? id index pc) := by
  refine (blind_resolveField id index).bind fun field => ?_
  split
  · refine .get_bind (fun machine _ => ?_) fun _ _ => blind_mismatch _
    rw [fieldLabel_veil]
  · refine (blind_ensureInitialized _ _).bind fun pushed => ?_
    split <;> exact .pure _

theorem blind_getStatic (id : ClassId) (index : UInt16) (pc next : UInt32) :
    Blind veil (getStatic id index pc next) := by
  refine (blind_staticField? id index pc).bind fun found => ?_
  split
  · exact .pure _
  · refine .get_bind (fun machine _ => ?_) fun _ _ => (blind_require _ _).bind fun _ =>
      (blind_onStack _).bind fun _ => blind_proceed _
    rw [cls_veil]
    rfl

theorem blind_setStatic (id : ClassId) (index : UInt16) (pc next : UInt32) :
    Blind veil (setStatic id index pc next) := by
  refine (blind_staticField? id index pc).bind fun found => ?_
  split
  · exact .pure _
  next field =>
      have stores : ∀ value, Blind veil (do
          putStatic field.owner field.slot.toNat value
          proceed next : Guest Step) :=
        fun _ => (blind_putStatic _ _ _).bind fun _ => blind_proceed _
      refine (blind_fromStack _).bind fun value => .get_bind (fun machine _ => ?_) fun machine _ => ?_
      · rw [cls_veil]
        rfl
      · dsimp only
        split
        · exact (blind_fault _).bind fun _ => stores value
        · exact stores value

theorem blind_instanceField (id : ClassId) (index : UInt16) :
    Blind veil (instanceField id index) := by
  refine (blind_resolveField id index).bind fun field => ?_
  split
  · refine .get_bind (fun machine _ => ?_) fun _ _ => blind_mismatch _
    rw [fieldLabel_veil]
  · exact .pure _

theorem blind_getField (id : ClassId) (index : UInt16) (next : UInt32) :
    Blind veil (getField id index next) := by
  refine (blind_instanceField id index).bind fun field => (blind_fromStack _).bind fun ref => ?_
  split
  · refine .get_bind (fun machine _ => ?_) fun _ _ => blind_raiseNull _
    simp only [fieldName_veil]
  · exact .get_bind (fun _ _ => rfl) fun _ _ => (blind_require _ _).bind fun _ =>
      (blind_onStack _).bind fun _ => blind_proceed _

theorem blind_setField (id : ClassId) (index : UInt16) (next : UInt32) :
    Blind veil (setField id index next) := by
  refine (blind_instanceField id index).bind fun field => (blind_fromStack _).bind fun value =>
    (blind_fromStack _).bind fun ref => ?_
  split
  · refine .get_bind (fun machine _ => ?_) fun _ _ => blind_raiseNull _
    simp only [fieldName_veil]
  next ref =>
      have stores : Blind veil (do
          modify fun machine => machine.modifyHeap fun heap => heap.modifyFields ref fun fields =>
            fields.write field.slot.toNat value
          proceed next : Guest Step) :=
        (blind_modifyHeap _ fun _ => rfl).bind fun _ => blind_proceed _
      refine .get_bind (fun _ _ => rfl) fun machine _ => ?_
      dsimp only
      split
      · exact (blind_fault _).bind fun _ => stores
      · exact stores

/-! ## Calls by instructions -/

theorem blind_selectTarget (mode : CallMode) (receiver : Ref) (resolved : MethodId) :
    Blind veil (selectTarget mode receiver resolved) := by
  have selects : Blind veil (selectTarget .dispatch receiver resolved) := by
    rw [selectTarget.eq_def]
    refine .get_bind (fun _ _ => rfl) fun machine _ => (blind_require _ _).bind fun cls =>
      (blind_resolveVirtual cls resolved).bind fun target => ?_
    split
    · exact .pure _
    · refine .get_bind (fun machine _ => ?_) fun _ _ => blind_raise _ _
      rw [methodLabel_veil]
  cases mode with
  | exact => exact .pure _
  | dispatch | iface => exact selects

section

variable {reentry : Reentry} (refuses : reentry.Refuses) {machine : Machine}
  (covers : veil.Covers machine) {id : MethodId} {pc : UInt32}

include refuses covers

theorem blindAt_invokeInstance {mode : CallMode} {index : UInt16}
    (admits : Finds veil.Admits (calledBy id pc (.invoke mode index)) machine) (next : UInt32) :
    BlindAt veil (invokeInstance reentry mode id.owner index pc next) machine := by
  rw [Finds, calledBy, ends_bind] at admits
  refine .bind (.of_blind (blind_resolveMethod _ _) covers) fun resolved linked covered ran => ?_
  have admitted := ends_of_ok ran admits
  rw [ends_bind, ends_get] at admitted
  refine BlindAt.get_bind ?_ ?_
  · simp only [methodLabel_veil, displayName_veil, method_veil]
    rfl
  dsimp only
  split
  next => exact .of_blind (blind_mismatch _) covered
  next =>
  split
  next => exact .of_blind (blind_raiseNull _) covered
  next receiver found =>
      simp only [found, ends_bind] at admitted
      refine .bind (.of_blind (blind_selectTarget _ _ _) covered) fun target chosen covered ran => ?_
      have admitted := ends_of_ok ran admitted
      exact blindAt_invoke refuses covered admitted pc next

theorem blindAt_invokeStatic {index : UInt16}
    (admits : Finds veil.Admits (calledBy id pc (.invokeStatic index)) machine) (next : UInt32) :
    BlindAt veil (invokeStatic reentry id.owner index pc next) machine := by
  rw [Finds, calledBy, ends_bind] at admits
  refine .bind (.of_blind (blind_resolveMethod _ _) covers) fun resolved linked covered ran => ?_
  have admitted := ends_of_ok ran admits
  rw [ends_bind] at admitted
  split
  next =>
      refine BlindAt.get_bind ?_ (.of_blind (blind_mismatch _) covered)
      rw [methodLabel_veil]
  next =>
      refine .bind (.of_blind (blind_ensureInitialized _ _) covered)
        fun pushed ready covered ran => ?_
      have admitted := ends_of_ok ran admitted
      split
      next => exact .of_blind (.pure _) covered
      next done =>
          rw [if_neg done] at admitted
          exact blindAt_invoke refuses covered admitted pc next

end

/-! ## Objects and types -/

theorem blind_pushInstance (id : ClassId) (index : UInt16) (pc next : UInt32) :
    Blind veil (pushInstance id index pc next) := by
  refine (blind_resolveClass id index).bind fun target => .get_bind (fun machine _ => ?_)
    fun machine _ => ?_
  · rw [cls_veil]
    rfl
  dsimp only
  split
  · exact blind_raise _ _
  · refine (blind_ensureInitialized _ _).bind fun pushed => ?_
    split
    · exact .pure _
    · exact (blind_newInstance _).bind fun _ => (blind_onStack _).bind fun _ => blind_proceed _

theorem blind_pushArray (id : ClassId) (count : Slot) (next : UInt32) :
    Blind veil (pushArray id count next) :=
  (blind_newArray id _).bind fun _ => (blind_onStack _).bind fun _ => blind_proceed _

theorem blind_pushPrimitiveArray (code : UInt8) (next : UInt32) :
    Blind veil (pushPrimitiveArray code next) :=
  (blind_require _ _).bind fun _ => (blind_fromStack _).bind fun _ => (blind_loadClass _).bind
    fun _ => blind_pushArray _ _ _

theorem blind_pushRefArray (id : ClassId) (index : UInt16) (next : UInt32) :
    Blind veil (pushRefArray id index next) :=
  (blind_resolveClass id index).bind fun _ => (blind_fromStack _).bind fun _ =>
    (blind_arrayClassOf _).bind fun _ => blind_pushArray _ _ _

theorem blind_checkCast (id : ClassId) (index : UInt16) (next : UInt32) :
    Blind veil (checkCast id index next) := by
  refine (blind_resolveClass id index).bind fun target => .get_bind (fun _ _ => rfl)
    fun machine _ => ?_
  split
  · exact blind_proceed _
  · refine (blind_classOf _).bind fun held => .get_bind (fun machine _ => ?_) fun machine _ => ?_
    · simp only [isAssignable_veil, displayName_veil]
    · split
      · exact blind_proceed _
      · exact blind_raise _ _

theorem blind_testInstance (id : ClassId) (index : UInt16) (next : UInt32) :
    Blind veil (testInstance id index next) := by
  have pushes : ∀ answer : Bool, Blind veil (do
      onStack fun stack => stack.pushValue (ofBool answer)
      proceed next : Guest Step) :=
    fun _ => (blind_onStack _).bind fun _ => blind_proceed _
  refine (blind_resolveClass id index).bind fun target => (blind_fromStack _).bind fun ref => ?_
  dsimp only
  split
  · exact Overlooks.bind (.pure false) pushes
  · refine (blind_classOf _).bind fun held => .get_bind (fun machine _ => ?_) fun machine _ =>
      Overlooks.bind (.pure (machine.registry.isAssignable held target)) pushes
    rw [isAssignable_veil]

theorem blind_pushConstant (id : ClassId) (index : UInt16) (next : UInt32) :
    Blind veil (pushConstant id index next) := by
  have pushes : ∀ value : Value, Blind veil (do
      onStack fun stack => stack.pushValue value
      proceed next : Guest Step) :=
    fun value => (blind_onStack _).bind fun _ => blind_proceed _
  refine (blind_constantAt id index).bind fun constant => ?_
  dsimp only
  split
  · exact Overlooks.bind (.pure _) pushes
  · exact Overlooks.bind (.pure _) pushes
  · exact Overlooks.bind (.pure _) pushes
  · exact Overlooks.bind (.pure _) pushes
  · exact (blind_resolveString _ _).bind fun _ => Overlooks.bind (.pure _) pushes
  · exact (blind_resolveString _ _).bind fun _ => Overlooks.bind (.pure _) pushes
  · exact (blind_resolveClass _ _).bind fun _ => (blind_mirror _).bind fun _ =>
      Overlooks.bind (.pure _) pushes
  · exact (blind_resolveClass _ _).bind fun _ => (blind_mirror _).bind fun _ =>
      Overlooks.bind (.pure _) pushes
  · exact (blind_fatal _).bind pushes

/-! ## Monitors -/

theorem blind_enterMonitor (next : UInt32) : Blind veil (enterMonitor next) := by
  refine .get_bind (fun _ _ => rfl) fun machine _ => ?_
  split
  · exact (blind_onStack _).bind fun _ => blind_raiseNull _
  · refine (blind_enterLock _).bind fun taken => ?_
    split
    · exact (blind_onStack _).bind fun _ => blind_proceed _
    · exact .pure _

theorem blind_exitMonitor (next : UInt32) : Blind veil (exitMonitor next) := by
  refine (blind_fromStack _).bind fun ref => ?_
  split
  · exact blind_raiseNull _
  · refine (blind_exitLock _).bind fun released => ?_
    split
    · exact blind_proceed _
    · exact blind_raise _ _

/-! ## Execution -/

theorem blind_ofDecodeFault (id : MethodId) (decodeFault : DecodeFault) :
    Blind veil (ofDecodeFault id decodeFault : Guest α) := by
  refine .get_bind (fun machine _ => ?_) fun machine _ => ?_
  · rw [methodLabel_veil]
  · cases decodeFault with
    | outside => exact blind_fault _
    | unknown => exact blind_fatal _
    | notWidenable => exact blind_fault _

theorem blind_ofDecode (id : MethodId) (decoded : Except DecodeFault α) :
    Blind veil (ofDecode id decoded) := by
  cases decoded with
  | ok value => exact .pure _
  | error decodeFault => exact blind_ofDecodeFault id decodeFault

/-- Bytes that are no instruction end the execution. -/
theorem ends_ofDecodeFault (id : MethodId) (decodeFault : DecodeFault) (machine : Machine) :
    Ends (ofDecodeFault id decodeFault : Guest α) machine (fun _ _ => False) fun _ _ => True := by
  rw [ofDecodeFault, ends_bind, ends_get]
  cases decodeFault <;> exact ends_throw.mpr trivial

theorem blind_compute (next : UInt32) (change : Stack → Stack) : Blind veil (compute next change) :=
  Overlooks.bind (blind_modifyExec (fun _ => ⟨rfl, rfl, rfl, fun busy => busy⟩) fun _ => rfl)
    fun _ => .pure _

theorem blind_divide (next : UInt32) (change : Stack → Bool × Stack) :
    Blind veil (divide next change) := by
  refine (blind_fromStack _).bind fun divided => ?_
  split
  · exact blind_proceed _
  · exact blind_raise _ _

theorem blind_jumpBy (id : MethodId) (pc : UInt32) (offset : Except DecodeFault UInt32) :
    Blind veil (jumpBy id pc offset) :=
  (blind_ofDecode id offset).bind fun _ => blind_proceed _

/-- Instructions that neither call nor return. -/
theorem blind_execute {instr : Instr} (stays : instr.isCallOrReturn = false) (reentry : Reentry)
    (id : MethodId) (code : Array UInt8) (pc next : UInt32) :
    Blind veil (execute reentry id code pc next instr) := by
  cases instr with
  | nop => exact blind_proceed _
  | constant index => exact blind_pushConstant _ _ _
  | load | store | increment => exact .get_bind (fun _ _ => rfl) fun _ _ => blind_compute _ _
  | arrayLoad => exact blind_loadElement.bind fun _ => blind_proceed _
  | arrayStore kind => exact (blind_storeElement kind).bind fun _ => blind_proceed _
  | intOp | longOp => exact blind_divide _ _
  | branch condition =>
      refine (blind_fromStack _).bind fun taken => ?_
      split
      · exact blind_jumpBy _ _ _
      · exact blind_proceed _
  | jump far => exact blind_jumpBy _ _ _
  | jumpSubroutine far => exact (blind_onStack _).bind fun _ => blind_jumpBy _ _ _
  | returnSubroutine index => exact .get_bind (fun _ _ => rfl) fun _ _ => blind_proceed _
  | tableSwitch | lookupSwitch => exact (blind_fromStack _).bind fun _ => blind_jumpBy _ _ _
  | getStatic index => exact blind_getStatic _ _ _ _
  | putStatic index => exact blind_setStatic _ _ _ _
  | getField index => exact blind_getField _ _ _
  | putField index => exact blind_setField _ _ _
  | invokeDynamic => exact blind_mismatch _
  | newObject index => exact blind_pushInstance _ _ _ _
  | newArray element => exact blind_pushPrimitiveArray _ _
  | newRefArray index => exact blind_pushRefArray _ _ _
  | newMultiArray index dimensions =>
      have pushes : Blind veil (do
          let cls ← resolveClass id.owner index
          pushNestedArray cls dimensions.toNat
          proceed next : Guest Step) :=
        (blind_resolveClass _ _).bind fun _ => (blind_pushNestedArray _ _).bind fun _ =>
          blind_proceed _
      rw [execute]
      split
      · refine .get_bind (fun machine _ => ?_) fun _ _ => (blind_fault _).bind fun _ => pushes
        rw [methodLabel_veil]
      · exact pushes
  | arrayLength => exact blind_arrayLength.bind fun _ => blind_proceed _
  | throwRef =>
      refine (blind_fromStack _).bind fun ref => ?_
      split
      · exact .throw _
      · exact blind_raiseNull _
  | checkCast index => exact blind_checkCast _ _ _
  | instanceOf index => exact blind_testInstance _ _ _
  | enterMonitor => exact blind_enterMonitor _
  | exitMonitor => exact blind_exitMonitor _
  | leave | invoke | invokeStatic => cases stays
  | _ =>
      rw [execute]
      exact blind_compute _ _

/-! ## What is called -/

theorem blind_called (id : MethodId) : Blind veil (called id) := by
  refine .get_bind (fun machine _ => ?_) fun machine _ => ?_
  · simp only [method_veil, callLock?_veil]
    rfl
  · split
    · exact .pure _
    · refine (blind_takeLock _).bind fun taken => ?_
      split
      · exact .pure _
      · split
        · exact (blind_bindNative id).bind fun _ => .pure _
        · exact .pure _

theorem blind_calledBy (id : MethodId) (pc : UInt32) (instr : Instr) :
    Blind veil (calledBy id pc instr) := by
  cases instr with
  | invoke mode index =>
      refine (blind_resolveMethod _ _).bind fun resolved =>
        .get_bind (fun _ _ => rfl) fun machine _ => ?_
      split
      · exact .pure _
      · exact (blind_selectTarget _ _ _).bind fun _ => blind_called _
  | invokeStatic index =>
      refine (blind_resolveMethod _ _).bind fun resolved =>
        (blind_ensureInitialized _ _).bind fun pushed => ?_
      split
      · exact .pure _
      · exact blind_called _
  | _ => exact .pure _

theorem blind_calledAt (id : MethodId) (code : Array UInt8) (pc : UInt32) (byte : UInt8) :
    Blind veil (calledAt id code pc byte) := by
  rw [calledAt, askedAt]
  split
  · exact .pure _
  · exact (blind_ofDecode id _).bind fun decoded => blind_calledBy id pc decoded.1

/-- Behind a veil the same is found. -/
theorem finds_veil {admitted : Native → Prop} {found : Guest (Option Native)} {machine : Machine}
    (blind : Blind veil found) (covers : veil.Covers machine) :
    Finds admitted found (machine.veil veil) ↔ Finds admitted found machine := by
  have same := blind machine covers
  simp only [Finds, Ends] at same ⊢
  cases ran : found machine with
  | ok value after =>
      rw [ran] at same
      rw [same.2]
  | error raised after =>
      rw [ran] at same
      rw [same.2]

/-! ## Instructions that call and return -/

variable {reentry : Reentry} (refuses : reentry.Refuses) {machine : Machine}

include refuses

/-- An instruction that does not return, if the native that it runs sees no more. -/
theorem blindAt_execute_of_stays (covers : veil.Covers machine) (id : MethodId)
    (code : Array UInt8) (pc next : UInt32) {instr : Instr} (stays : ∀ kind, instr ≠ .leave kind)
    (admits : Finds veil.Admits (calledBy id pc instr) machine) :
    BlindAt veil (execute reentry id code pc next instr) machine := by
  by_cases plain : instr.isCallOrReturn = false
  · exact .of_blind (blind_execute plain reentry id code pc next) covers
  cases instr with
  | leave kind => exact absurd rfl (stays kind)
  | invoke mode index => exact blindAt_invokeInstance refuses covers admits next
  | invokeStatic index => exact blindAt_invokeStatic refuses covers admits next
  | _ => exact absurd rfl plain

section

variable (covers : veil.Covers machine) (running : machine.exec.isIdle = false) {id : MethodId}
  {code : Array UInt8} {pc : UInt32}

include covers running

/-- Every instruction, if the native that it runs sees no more. While it runs, the frame that
it is in is there. -/
theorem blindAt_execute (free : ¬veil.busy) (next : UInt32) {instr : Instr}
    (admits : Finds veil.inFrame.Admits (calledBy id pc instr) machine) :
    BlindAt veil (execute reentry id code pc next instr) machine := by
  by_cases leaves : ∃ kind, instr = .leave kind
  · obtain ⟨kind, rfl⟩ := leaves
    cases kind with
    | none => exact .of_blind (blind_returnFromFrame free _) covers
    | some kind =>
        exact .of_blind ((blind_fromStack _).bind fun _ => blind_returnFromFrame free _) covers
  · have stays : ∀ kind, instr ≠ .leave kind := fun kind same => leaves ⟨kind, same⟩
    exact (blindAt_execute_of_stays refuses (covers.inFrame running) id code pc next stays
      admits).outOfFrame free

/-- An instruction that does not return to the host leaves the execution in a frame. -/
theorem ends_execute_running (next : UInt32) {instr : Instr}
    (admits : Finds veil.inFrame.Admits (calledBy id pc instr) machine) :
    Ends (execute reentry id code pc next instr) machine
      (fun ended after => (∀ value, ended ≠ .returned value) → after.exec.isIdle = false)
      fun _ _ => True := by
  have returns : ∀ (value : Value) (machine : Machine), machine.exec.isIdle = false →
      Ends (returnFromFrame value) machine
        (fun ended after => (∀ value, ended ≠ .returned value) → after.exec.isIdle = false)
        fun _ _ => True := by
    intro value machine running
    obtain ⟨current, method⟩ := Option.isSome_iff_exists.mp
      (Option.isNone_eq_false_iff.mp running)
    refine (ends_returnFromFrame value method).mono ?_ fun _ _ _ => trivial
    rintro ended after ⟨resumed, rfl⟩ goesOn
    rw [resumed]
    cases idle : (machine.exec.resume value).isIdle with
    | false => rfl
    | true => exact absurd (by rw [idle, if_pos rfl]) (goesOn value)
  by_cases leaves : ∃ kind, instr = .leave kind
  · obtain ⟨kind, rfl⟩ := leaves
    cases kind with
    | none => exact returns _ machine running
    | some kind =>
        rw [execute, ends_bind]
        exact Ends.of_ok rfl (returns _ _ running)
  · have stays : ∀ kind, instr ≠ .leave kind := fun kind same => leaves ⟨kind, same⟩
    have blind := blindAt_execute_of_stays refuses (covers.inFrame running) id code pc next stays
      admits
    exact Ends.mono blind (fun _ _ ended _ => ended.1.running trivial) fun _ _ _ => trivial

end

omit refuses in
/-- A byte starts an instruction, or the execution ends. -/
theorem executeByte_cases {id : MethodId} {code : Array UInt8} {pc : UInt32} {byte : UInt8}
    {admitted : Native → Prop} (admits : Finds admitted (calledAt id code pc byte) machine) :
    (∃ decodeFault, executeByte reentry id code pc byte = ofDecodeFault id decodeFault) ∨
      ∃ instr next, executeByte reentry id code pc byte = execute reentry id code pc next instr ∧
        Finds admitted (calledBy id pc instr) machine := by
  rw [Finds, calledAt, askedAt] at admits
  cases found : Opcode.ofByte byte with
  | none => exact .inl ⟨.unknown byte pc, by rw [executeByte]; simp only [found]⟩
  | some opcode =>
      simp only [found, ends_bind] at admits
      cases decoded : Instr.decode code pc opcode with
      | error decodeFault =>
          refine .inl ⟨decodeFault, ?_⟩
          rw [executeByte]
          simp only [found, decoded]
          funext machine
          cases decodeFault <;> rfl
      | ok found' =>
          obtain ⟨instr, next⟩ := found'
          rw [decoded, ofDecode, ends_pure] at admits
          refine .inr ⟨instr, next, ?_, admits⟩
          rw [executeByte]
          simp only [found, decoded]
          rfl

section

variable (covers : veil.Covers machine) (running : machine.exec.isIdle = false) {id : MethodId}
  {code : Array UInt8} {pc : UInt32} {byte : UInt8}
  (admits : Finds veil.inFrame.Admits (calledAt id code pc byte) machine)

include covers running admits

theorem blindAt_executeByte (free : ¬veil.busy) :
    BlindAt veil (executeByte reentry id code pc byte) machine := by
  obtain ⟨decodeFault, same⟩ | ⟨instr, next, same, admitted⟩ := executeByte_cases admits
  · exact same ▸ .of_blind (blind_ofDecodeFault id decodeFault) covers
  · exact same ▸ blindAt_execute refuses covers running free next admitted

theorem ends_executeByte_running :
    Ends (executeByte reentry id code pc byte) machine
      (fun ended after => (∀ value, ended ≠ .returned value) → after.exec.isIdle = false)
      fun _ _ => True := by
  obtain ⟨decodeFault, same⟩ | ⟨instr, next, same, admitted⟩ := executeByte_cases admits
  · rw [same]
    exact (ends_ofDecodeFault id decodeFault machine).mono (fun _ _ never => never.elim)
      fun _ _ ended => ended
  · rw [same]
    exact ends_execute_running refuses covers running next admitted

end

end Guest

end Jvm
