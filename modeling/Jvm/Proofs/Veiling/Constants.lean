import Jvm.Machine.Initialize
import Jvm.Machine.Arrays
import Jvm.Proofs.Veiling.Veil

/-!
# Objects and constants behind a veil

What programs do with objects and with the constants of their classes is not veiled.
-/

/-!
## Objects behind a veil

Objects are made, read and written, and exceptions are raised, by what their classes show
of themselves. None of it is veiled.
-/

namespace Jvm

open Machine

namespace Overlooks

variable {ε σ α : Type} {meant : σ → Prop} {change : σ → σ}

theorem forM {items : List α} {step : α → EStateM ε σ PUnit}
    (overlooks : ∀ item, Overlooks meant change (step item)) :
    Overlooks meant change (items.forM step) := by
  induction items with
  | nil => exact .pure _
  | cons item rest ih => exact (overlooks item).bind fun _ => ih

end Overlooks

namespace Guest

variable {veil : Veil} {α : Type}

/-! ### Allocation -/

theorem blind_collect : Blind veil collect := overlooks_collect (unnoticed_veil veil)

theorem blind_alloc (payload : Nat) (make : Int32 → Object) : Blind veil (alloc payload make) :=
  overlooks_alloc (unnoticed_veil veil) payload make

theorem blind_newInstance (id : ClassId) : Blind veil (newInstance id) :=
  overlooks_newInstance (unnoticed_veil veil) id

theorem blind_newZeroArray (id : ClassId) (size : Nat) : Blind veil (newZeroArray id size) := by
  refine .get_bind (fun machine _ => ?_) fun machine _ => ?_
  · simp only [cls_veil]
    rfl
  · dsimp only
    split
    · exact blind_fault _
    · exact blind_alloc _ _

theorem blind_newString (text : String) : Blind veil (newString text) :=
  overlooks_newString (unnoticed_veil veil) text

theorem blind_newStringOfUnits (units : List UInt16) : Blind veil (newStringOfUnits units) :=
  overlooks_newCompactString (unnoticed_veil veil) _ _

/-- Elements of an array are written. -/
theorem blind_setElement (array : Ref) (index : Nat) (value : Value) :
    Blind veil (modify fun machine => machine.modifyHeap fun heap =>
      heap.modifyArray array fun data => data.set index value : Guest Unit) :=
  blind_modifyHeap _ fun _ => rfl

/-! ### Exceptions -/

theorem blind_newThrowable (className : String) (message : Option String) :
    Blind veil (newThrowable className message) := by
  refine (blind_loadRaw className).bind fun loaded => (blind_ofLoad loaded).bind fun id =>
    (blind_newInstance id).bind fun ref => ?_
  cases message with
  | none => exact .pure _
  | some message =>
      exact (blind_newString message).bind fun text =>
        (blind_modifyHeap _ fun _ => rfl).bind fun _ => .pure _

theorem blind_raise (kind : ExceptionKind) (message : Option String) :
    Blind veil (raise kind message : Guest α) :=
  (blind_newThrowable _ _).bind fun _ => .throw _

theorem blind_raiseNull (message : String) : Blind veil (raiseNull message : Guest α) :=
  blind_raise _ _

theorem blind_classOf (ref : Ref) : Blind veil (classOf ref) :=
  .get_bind (fun _ _ => rfl) fun _ _ => blind_require _ _

theorem blind_newArray (id : ClassId) (size : Int32) : Blind veil (newArray id size) := by
  rw [newArray]
  split
  · exact blind_raise _ _
  · exact blind_newZeroArray _ _

/-! ### Canonical objects -/

theorem blind_internString (text : String) : Blind veil (internString text) :=
  overlooks_internString (unnoticed_veil veil) text

theorem blind_internObject? (ref : Ref) : Blind veil (internObject? ref) := by
  refine .get_bind (fun _ _ => rfl) fun machine _ => ?_
  split
  · exact .pure _
  · split
    · exact .pure _
    · exact (overlooks_intern (unnoticed_veil veil) _ ref).bind fun _ => .pure _

theorem blind_mirror (id : ClassId) : Blind veil (mirror id) := by
  refine .get_bind (fun machine _ => ?_) fun machine _ => ?_
  · simp only [cls_veil]
    rfl
  · dsimp only
    split
    · exact .pure _
    · refine (blind_newInstance _).bind fun ref => Overlooks.bind (.modify ?_ ?_) fun _ => .pure _
      · exact fun machine covers => covers_modifyClass covers id _
      · intro machine _
        rw [modifyHeap_veil, modifyClass_veil _ id]
        exact fun _ _ => rfl

theorem blind_cloneObject (ref : Ref) : Blind veil (cloneObject ref) := by
  refine .get_bind (fun machine _ => ?_) fun machine _ => ?_
  · simp only [displayName_veil, isAssignable_veil]
    rfl
  · dsimp only
    split
    · exact blind_fault _
    · split
      · exact blind_alloc _ _
      · split
        · exact blind_alloc _ _
        · exact blind_raise _ _

/-! ### Arrays -/

theorem blind_arrayOperands (action : String) : Blind veil (arrayOperands action) := by
  refine (blind_fromStack _).bind fun slot => (blind_fromStack _).bind fun array => ?_
  cases array with
  | none => exact blind_raiseNull _
  | some array =>
      refine .get_bind (fun _ _ => rfl) fun machine _ => ?_
      dsimp only
      split
      · exact blind_fault _
      · split
        · exact blind_raise _ _
        · exact .pure _

theorem blind_loadElement : Blind veil loadElement :=
  (blind_arrayOperands _).bind fun _ => .get_bind (fun _ _ => rfl) fun _ _ =>
    (blind_require _ _).bind fun _ => (blind_require _ _).bind fun _ => blind_onStack _

theorem blind_checkElement (array : Class) (value : Value) :
    Blind veil (checkElement array value) := by
  rw [checkElement.eq_def]
  split
  · refine (blind_classOf _).bind fun held => .get_bind (fun machine _ => ?_) fun machine _ => ?_
    · simp only [isAssignable_veil, displayName_veil]
    · split
      · exact .pure _
      · split
        · exact blind_raise _ _
        · exact .pure _
  · exact .pure _

theorem blind_storeElement (kind : Kind) : Blind veil (storeElement kind) := by
  refine (blind_fromStack _).bind fun value => (blind_arrayOperands _).bind fun (array, index) => ?_
  refine .get_bind (fun machine _ => ?_) fun machine _ => (blind_classOf array).bind fun held => ?_
  · simp only [cls_veil]
    rfl
  · refine (blind_checkElement _ value).bind fun _ => .get_bind (fun _ _ => rfl) fun machine _ => ?_
    dsimp only
    split
    · exact blind_setElement array index _
    · exact blind_fault _

theorem blind_arrayLength : Blind veil arrayLength := by
  refine (blind_fromStack _).bind fun array => ?_
  cases array with
  | none => exact blind_raiseNull _
  | some array =>
      refine .get_bind (fun _ _ => rfl) fun machine _ => ?_
      split
      · exact blind_fault _
      · exact blind_onStack _

theorem blind_newNestedArray (id : ClassId) (counts : List Int32) :
    Blind veil (newNestedArray id counts) := by
  induction id, counts using newNestedArray.induct with
  | case1 id => exact blind_fault _
  | case2 id count => exact blind_newArray id count
  | case3 id count inner _ ih =>
      rw [newNestedArray]
      · refine (blind_newArray id count).bind fun array =>
          .get_bind (fun machine _ => ?_) fun machine _ =>
          (blind_require _ _).bind fun component => ?_
        · simp only [cls_veil]
          rfl
        · exact Overlooks.bind (.forM fun index => (ih component).bind fun row =>
            blind_setElement array index _) fun _ => .pure _
      · assumption

theorem blind_popCounts (remaining : Nat) (counts : List Int32) :
    Blind veil (popCounts remaining counts) := by
  induction remaining generalizing counts with
  | zero => exact .pure _
  | succ remaining ih => exact (blind_fromStack _).bind fun _ => ih _

theorem blind_pushNestedArray (id : ClassId) (dimensions : Nat) :
    Blind veil (pushNestedArray id dimensions) := by
  refine (blind_popCounts dimensions []).bind fun counts => ?_
  split
  · exact blind_raise _ _
  · exact (blind_newNestedArray id counts).bind fun _ => blind_onStack _

end Guest

end Jvm

/-!
## Constants and initialization behind a veil

Constants are resolved by names, and classes are initialized by their constants and the
frames of their initializers. A frame has room for what its method's code asks for, whatever
the bytes of that code are.
-/

namespace Jvm

open Machine

namespace Guest

variable {veil : Veil} {α : Type}

/-! ### Resolution -/

theorem blind_constantAt (id : ClassId) (index : UInt16) : Blind veil (constantAt id index) := by
  refine .get_bind (fun machine _ => ?_) fun machine _ => blind_ofLoad _
  rw [cls_veil]
  rfl

theorem blind_remember (id : ClassId) (index : UInt16) (resolved : Constant) :
    Blind veil (remember id index resolved) :=
  blind_modifyClass id fun _ _ => rfl

theorem blind_linkClass (id : ClassId) (index : UInt16) : Blind veil (linkClass id index) := by
  refine .get_bind (fun machine _ => ?_) fun machine _ => ?_
  · rw [cls_veil]
    rfl
  · dsimp only
    split
    · exact .pure _
    · exact .pure _
    · split
      · exact .pure _
      · refine (blind_loadRaw _).bind fun loaded => ?_
        split
        · exact .pure _
        · exact (blind_remember id index _).bind fun _ => .pure _
    · exact .pure _

theorem blind_orMissingClass (loaded : Except LoadError ClassId) :
    Blind veil (orMissingClass loaded) := by
  rw [orMissingClass.eq_def]
  split
  · exact .pure _
  · exact blind_raise _ _
  · exact blind_fatal _

theorem blind_resolveClass (id : ClassId) (index : UInt16) : Blind veil (resolveClass id index) :=
  (blind_linkClass id index).bind blind_orMissingClass

theorem blind_loadClass (name : String) : Blind veil (loadClass name) :=
  (blind_loadRaw name).bind blind_orMissingClass

theorem blind_arrayClassOf (component : ClassId) : Blind veil (arrayClassOf component) :=
  (blind_linkArray component).bind blind_orMissingClass

theorem blind_resolveField (id : ClassId) (index : UInt16) : Blind veil (resolveField id index) := by
  refine (blind_constantAt id index).bind fun constant => ?_
  split
  · exact .pure _
  · refine .get_bind (fun machine _ => ?_) fun machine _ => (blind_ofLoad _).bind fun member =>
      (blind_resolveClass id _).bind fun owner => .get_bind (fun machine _ => ?_) fun machine _ => ?_
    · rw [cls_veil]
      rfl
    · simp only [toClassTable_veil, ClassTable.lookupField_recode, ClassTable.displayName_recode]
    · dsimp only
      split
      · exact (blind_remember id index _).bind fun _ => .pure _
      · exact blind_raise _ _
  · exact blind_fatal _

theorem blind_findMethod (id : ClassId) (index : UInt16) : Blind veil (findMethod id index) := by
  refine .get_bind (fun machine _ => ?_) fun machine _ => (blind_ofLoad _).bind fun member =>
    (blind_resolveClass id _).bind fun owner => .get_bind (fun machine _ => ?_) fun machine _ => ?_
  · rw [cls_veil]
    rfl
  · simp only [toClassTable_veil, ClassTable.lookupMethod_recode, ClassTable.displayName_recode,
      ClassTable.method_recode]
    rfl
  · dsimp only
    split
    · exact (blind_remember id index _).bind fun _ => .pure _
    · exact blind_raise _ _

theorem blind_resolveMethod (id : ClassId) (index : UInt16) :
    Blind veil (resolveMethod id index) := by
  refine (blind_constantAt id index).bind fun constant => ?_
  split
  · exact .pure _
  · exact blind_findMethod id index
  · exact blind_findMethod id index
  · exact blind_fatal _

theorem blind_resolveString (id : ClassId) (index : UInt16) :
    Blind veil (resolveString id index) := by
  refine (blind_constantAt id index).bind fun constant => ?_
  split
  · exact .pure _
  · refine .get_bind (fun machine _ => ?_) fun machine _ => (blind_ofLoad _).bind fun text =>
      (blind_internString text).bind fun ref => (blind_remember id index _).bind fun _ => .pure _
    rw [cls_veil]
    rfl
  · exact blind_fatal _

/-! ### Initialization -/

/-- A step is undone alike if it throws. -/
theorem blindAt_onThrow {step : Guest α} {change : Machine → Machine} {machine : Machine}
    (blind : BlindAt veil step machine)
    (covers : ∀ machine, veil.Covers machine → veil.Covers (change machine))
    (same : ∀ machine, veil.Covers machine →
      change (machine.veil veil) = (change machine).veil veil) :
    BlindAt veil (onThrow step change) machine := by
  simp only [BlindAt, Ends] at blind
  cases ran : step machine with
  | ok value after =>
      rw [ran] at blind
      exact Ends.of_ok (by rw [onThrow, ran]) ⟨blind.1, by rw [onThrow, blind.2]⟩
  | error raised after =>
      rw [ran] at blind
      refine Ends.of_error (by rw [onThrow, ran]) ⟨covers after blind.1, ?_⟩
      rw [onThrow, blind.2]
      exact congrArg (EStateM.Result.error raised) (same after blind.1)

theorem blind_onThrow {step : Guest α} {change : Machine → Machine} (blind : Blind veil step)
    (covers : ∀ machine, veil.Covers machine → veil.Covers (change machine))
    (same : ∀ machine, veil.Covers machine →
      change (machine.veil veil) = (change machine).veil veil) :
    Blind veil (onThrow step change) :=
  fun _ covered => blindAt_onThrow (.of_blind blind covered) covers same

theorem blind_initialValue (id : ClassId) (kind : Kind) (index : UInt16) :
    Blind veil (initialValue id kind index) := by
  refine .get_bind (fun machine _ => ?_) fun machine _ => ?_
  · rw [cls_veil]
    rfl
  · dsimp only
    split
    · exact (blind_ofLoad _).bind fun _ => .pure _
    · exact (blind_ofLoad _).bind fun _ => .pure _
    · exact (blind_ofLoad _).bind fun _ => .pure _
    · exact (blind_resolveString id index).bind fun _ => .pure _
    · exact (blind_ofLoad _).bind fun _ => .pure _

theorem blind_putStatic (id : ClassId) (slot : Nat) (value : Value) :
    Blind veil (putStatic id slot value) :=
  blind_modifyClass id fun _ _ => rfl

theorem blind_storeInitialValues (id : ClassId) (values : List (Field × UInt16)) :
    Blind veil (storeInitialValues id values) := by
  induction values with
  | nil => exact .pure _
  | cons value rest ih =>
      exact (blind_initialValue id _ _).bind fun _ => (blind_putStatic id _ _).bind fun _ => ih

theorem blind_prepareStatics (id : ClassId) : Blind veil (prepareStatics id) := by
  refine (blind_modifyClass id fun _ _ => rfl).bind fun _ => .get_bind (fun machine _ => ?_)
    fun machine _ => blind_storeInitialValues id _
  rw [cls_veil]
  rfl

theorem blind_setInitState (id : ClassId) (state : InitState) :
    Blind veil (setInitState id state) :=
  blind_modifyClass id fun _ _ => rfl

theorem markFailed_veil (id : ClassId) (machine : Machine) :
    markFailed id (machine.veil veil) = (markFailed id machine).veil veil :=
  machine.modifyClass_veil id fun _ _ => rfl

theorem blind_pushFrame (id : MethodId) (callerPc returnPc : UInt32) :
    Blind veil (pushFrame id callerPc returnPc) := by
  refine .get_bind (fun machine _ => ?_) fun machine _ => ?_
  · simp only [methodLabel_veil, method_veil, Method.frameLocals_recode]
    cases code : (machine.method id).code <;> simp only [Method.recode, code] <;> rfl
  · dsimp only
    split
    · exact blind_fault _
    · split
      · exact blind_fault _
      · split
        · exact blind_raise _ _
        · exact blind_modifyExec (fun _ => ⟨rfl, rfl, rfl, fun _ => rfl⟩) fun _ => rfl

theorem blind_pushInitializer (id : ClassId) (pc : UInt32) :
    Blind veil (pushInitializer id pc) := by
  refine .get_bind (fun machine _ => ?_) fun machine _ => ?_
  · simp only [cls_veil, Class.initializer?, Class.declaredMethod?_recode]
  · split
    · exact .pure _
    · exact (blind_onThrow (blind_pushFrame _ _ _)
        (fun _ covers => covers_modifyClass covers id _)
        fun machine _ => markFailed_veil id machine).bind fun _ => .pure _

theorem blind_initializeChain (chain : List ClassId) (pc : UInt32) :
    Blind veil (initializeChain chain pc) := by
  induction chain generalizing pc with
  | nil => exact .pure _
  | cons id above ih =>
      refine .get_bind (fun machine _ => ?_) fun machine _ => ?_
      · rw [cls_veil]
        rfl
      dsimp only
      split
      · exact .pure _
      · exact .pure _
      · refine .get_bind (fun machine _ => ?_) fun _ _ => blind_raise _ _
        rw [displayName_veil]
      · refine (blind_prepareStatics id).bind fun _ => (blind_setInitState id _).bind fun _ =>
          (blind_pushInitializer id pc).bind fun pushed => ?_
        refine (blind_onThrow (ih _) (fun middle covers => ?_) fun middle _ => ?_).bind
          fun pushedAbove => ?_
        · split
          · exact covers
          · exact covers_modifyClass covers id _
        · split
          · rfl
          · exact markFailed_veil id middle
        · split
          · exact (blind_setInitState id _).bind fun _ => .pure _
          · exact .pure _

theorem blind_ensureInitialized (id : ClassId) (pc : UInt32) :
    Blind veil (ensureInitialized id pc) := by
  refine .get_bind (fun machine _ => ?_) fun machine _ => ?_
  · simp only [cls_veil, toClassTable_veil, ClassTable.superChain_recode]
    rfl
  · split
    · exact .pure _
    · exact .pure _
    · exact blind_initializeChain _ _

end Guest

end Jvm
