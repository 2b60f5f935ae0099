import Jvm.Machine.Call
import Jvm.Proofs.Veiling.Constants

/-!
# Natives behind a veil

What natives read of the machine is its objects, its classes, its executions and its clock.
A thread that is started is given an id and joins the threads to schedule, so that native
looks behind any veil; the others look behind some only. A native runs in a frame of the
execution that called it: a call that it asks for is refused, since the execution is not
idle.
-/

namespace Jvm

open Machine

/-- Whether a native sees no more of the machine than what is not veiled. -/
def Veil.Admits (veil : Veil) : Native → Prop
  | .builtin (.thread .start) => False
  | .builtin (.thread .sleep) | .builtin (.thread .yield) => ¬veil.steady
  | .builtin (.system .nanoTime) | .builtin (.system .currentTimeMillis) => veil.clocked
  | .builtin _ => True
  | .host _ => veil.busy

/-- Whether calls on an execution that is not idle are refused, with an error that depends on
the execution alone. -/
def Reentry.Refuses (reentry : Reentry) : Prop :=
  ∃ refusal : ExecId → Error, ∀ method arguments machine, machine.exec.isIdle = false →
    reentry.enter method arguments machine = .error (refusal machine.exec.id) machine

theorem Machine.now_veil {veil : Veil} {machine : Machine} (covers : veil.Covers machine)
    (clocked : veil.clocked) : (machine.veil veil).now = machine.now :=
  (covers.2.2.2.2.1.1 clocked).1

theorem Machine.calendar_veil {veil : Veil} {machine : Machine} (covers : veil.Covers machine)
    (clocked : veil.clocked) :
    (machine.veil veil).clock.calendar (machine.veil veil).executed (machine.veil veil).slept =
      machine.clock.calendar machine.executed machine.slept :=
  (covers.2.2.2.2.1.1 clocked).2

variable {veil : Veil}

namespace Guest

theorem blind_nonNull (ref : Option Ref) (what : String) : Blind veil (nonNull ref what) := by
  cases ref with
  | none => exact blind_raiseNull _
  | some ref => exact .pure _

theorem blind_unitsOf (ref : Option Ref) : Blind veil (unitsOf ref) :=
  (blind_nonNull ref _).bind fun _ => .get_bind (fun _ _ => rfl) fun _ _ => blind_require _ _

end Guest

open Guest

/-! ## Text -/

theorem Printed.blind_toObject (printed : Printed) (arguments : NativeArgs) (index : Nat) :
    Blind veil (printed.toObject arguments index) := by
  have texts : ∀ machine : Machine,
      printed.text (machine.veil veil) arguments index = printed.text machine arguments index :=
    fun _ => by cases printed <;> rfl
  have spelled : Blind veil (do newString (printed.text (← get) arguments index)) := by
    refine .get_bind (fun machine _ => ?_) fun _ _ => blind_newString _
    rw [texts]
  cases printed with
  | char => exact blind_newStringOfUnits _
  | string | int | long | float | double | boolean => exact spelled

namespace StringNative

theorem blind_unitAt (units : List UInt16) (index : Int32) : Blind veil (unitAt units index) := by
  rw [unitAt]
  split
  · exact .pure _
  · exact blind_raise _ _

theorem blind_textHash (receiver : Ref) : Blind veil (textHash receiver) := by
  refine .get_bind (fun _ _ => rfl) fun machine _ => .get_bind (fun _ _ => rfl) fun other _ => ?_
  dsimp only
  split
  · exact .pure _
  · exact (blind_unitsOf _).bind fun units => (blind_modifyHeap _ fun _ => rfl).bind fun _ => .pure _

theorem blind_join (receiver other : Option Ref) : Blind veil (join receiver other) := by
  refine (blind_unitsOf _).bind fun units => (blind_unitsOf _).bind fun tail => ?_
  split
  · exact .pure _
  · exact (blind_newStringOfUnits _).bind fun _ => .pure _

theorem blind_run (native : StringNative) (arguments : NativeArgs) :
    Blind veil (native.run arguments) := by
  cases native with
  | length => exact (blind_unitsOf _).bind fun _ => .pure _
  | isEmpty => exact (blind_unitsOf _).bind fun _ => .pure _
  | charAt => exact (blind_unitsOf _).bind fun _ => blind_unitAt _ _
  | equals =>
      exact (blind_nonNull _ _).bind fun _ => .get_bind (fun _ _ => rfl) fun _ _ => .pure _
  | hashCode => exact (blind_nonNull _ _).bind blind_textHash
  | intern =>
      exact (blind_nonNull _ _).bind fun _ => (blind_internObject? _).bind fun _ =>
        (blind_require _ _).bind fun _ => .pure _
  | concat => exact blind_join _ _
  | valueOf printed => exact (printed.blind_toObject _ _).bind fun _ => .pure _

end StringNative

namespace PrintNative

theorem written_veil (native : PrintNative) (machine : Machine) (arguments : NativeArgs) :
    native.written (machine.veil veil) arguments = native.written machine arguments := by
  cases native with
  | print printed | printLine printed => cases printed <;> rfl
  | newLine | flush => rfl

theorem blind_run (native : PrintNative) (arguments : NativeArgs) :
    Blind veil (native.run arguments) := by
  refine (blind_nonNull _ _).bind fun stream => .get_bind (fun machine _ => ?_) fun machine _ =>
    Overlooks.bind (.modify (fun other covers => ?_) fun other _ => ?_) fun _ => .pure _
  · rw [written_veil]
    rfl
  · rw [write]
    split <;> exact covers
  · simp only [write]
    split <;> rfl

end PrintNative

/-! ## Objects and classes -/

namespace ObjectNative

theorem blind_wake (receiver : Ref) : Blind veil (wake receiver) := by
  refine .get_bind (fun _ _ => rfl) fun machine _ => ?_
  dsimp only
  split
  · exact .pure _
  · exact blind_raise _ _

theorem blind_run (native : ObjectNative) (arguments : NativeArgs) :
    Blind veil (native.run arguments) := by
  refine (blind_nonNull _ _).bind fun receiver => ?_
  cases native with
  | hashCode => exact .get_bind (fun _ _ => rfl) fun _ _ => .pure _
  | getClass => exact (blind_classOf _).bind fun _ => (blind_mirror _).bind fun _ => .pure _
  | clone => exact (blind_cloneObject _).bind fun _ => .pure _
  | toText =>
      refine (blind_classOf _).bind fun cls => .get_bind (fun machine _ => ?_) fun machine _ =>
        (blind_newString _).bind fun _ => .pure _
      rw [description, displayName_veil]
      rfl
  | notify => exact blind_wake receiver

end ObjectNative

namespace ClassNative

theorem blind_thisClass (arguments : NativeArgs) : Blind veil (thisClass arguments) := by
  refine (blind_nonNull _ _).bind fun receiver => .get_bind (fun machine _ => ?_) fun machine _ =>
    blind_require _ _
  rw [mirrored?_veil]

theorem blind_byName (arguments : NativeArgs) : Blind veil (byName arguments) := by
  refine (blind_nonNull _ _).bind fun ref => .get_bind (fun _ _ => rfl) fun machine _ =>
    (blind_require _ _).bind fun name => ?_
  dsimp only
  split
  · exact blind_raise _ _
  · refine (blind_loadRaw _).bind fun loaded => ?_
    split
    · exact (blind_mirror _).bind fun _ => .pure _
    · exact blind_raise _ _
    · exact blind_fatal _

theorem blind_superclassMirror (id : ClassId) : Blind veil (superclassMirror id) := by
  refine .get_bind (fun machine _ => ?_) fun machine _ => ?_
  · rw [cls_veil]
    rfl
  · dsimp only
    split
    · exact (blind_mirror _).bind fun _ => .pure _
    · exact .pure _

theorem blind_run (native : ClassNative) (arguments : NativeArgs) :
    Blind veil (native.run arguments) := by
  cases native with
  | forName => exact blind_byName arguments
  | getName =>
      refine (blind_thisClass _).bind fun id => .get_bind (fun machine _ => ?_) fun machine _ =>
        (blind_newString _).bind fun _ => .pure _
      rw [displayName_veil]
  | isInstance =>
      refine (blind_thisClass _).bind fun id => ?_
      split
      · exact .pure _
      · refine (blind_classOf _).bind fun held => .get_bind (fun machine _ => ?_) fun _ _ => .pure _
        rw [isAssignable_veil]
  | isArray =>
      refine (blind_thisClass _).bind fun id => .get_bind (fun machine _ => ?_) fun _ _ => .pure _
      rw [cls_veil]
      rfl
  | isInterface =>
      refine (blind_thisClass _).bind fun id => .get_bind (fun machine _ => ?_) fun _ _ => .pure _
      rw [cls_veil]
      rfl
  | getSuperclass => exact (blind_thisClass _).bind blind_superclassMirror

end ClassNative

/-! ## Copies, clock and collection -/

namespace SystemNative

variable {α : Type}

theorem blind_refuse (message : String) : Blind veil (refuse message : Guest α) := blind_raise _ _

theorem blind_sizeOf (side : Side) : Blind veil (sizeOf side) := by
  refine .get_bind (fun _ _ => rfl) fun machine _ => ?_
  split
  · exact .pure _
  · refine .get_bind (fun machine _ => ?_) fun machine _ => (blind_classOf _).bind fun cls =>
      blind_refuse _
    simp only [displayName_veil]

theorem blind_checkRange (side : Side) (length : Int32) (size : Nat) :
    Blind veil (checkRange side length size) := by
  rw [checkRange]
  split
  · exact blind_raise _ _
  · exact .pure _

theorem blind_copyChecked (target : Ref) (component : ClassId) (index : Nat)
    (elements : List (Option Ref)) : Blind veil (copyChecked target component index elements) := by
  induction elements generalizing index with
  | nil => exact .pure _
  | cons element rest ih =>
      have stores : Blind veil (do
          modify fun machine => machine.modifyHeap fun heap => heap.modifyArray target fun data =>
            data.set index (.ref element)
          copyChecked target component (index + 1) rest : Guest Unit) :=
        (blind_setElement target index _).bind fun _ => ih _
      rw [copyChecked.eq_def]
      cases element with
      | none => exact stores
      | some ref =>
          refine (blind_classOf ref).bind fun cls => .get_bind (fun machine _ => ?_)
            fun machine _ => ?_
          · simp only [isAssignable_veil, displayName_veil]
          · dsimp only
            split
            · exact (blind_refuse _).bind fun _ => stores
            · exact stores

theorem elementKind_veil (machine : Machine) (cls : ClassId) :
    elementKind (machine.veil veil) cls = elementKind machine cls := by
  rw [elementKind, elementKind, cls_veil]
  rfl

theorem checkedAgainst_veil (machine : Machine) (source target : ClassId) :
    checkedAgainst (machine.veil veil) source target = checkedAgainst machine source target := by
  rw [checkedAgainst, checkedAgainst, elementKind_veil, isAssignable_veil, cls_veil]
  rfl

theorem blind_copyElements (source target : Ref) (sourceClass targetClass : ClassId)
    (start place count : Nat) :
    Blind veil (copyElements source target sourceClass targetClass start place count) := by
  rw [copyElements]
  split
  · exact blind_modifyHeap _ fun _ => rfl
  · refine .get_bind (fun machine _ => ?_) fun machine _ => ?_
    · rw [checkedAgainst_veil]
      rfl
    · split
      · exact blind_copyChecked _ _ _ _
      · exact blind_modifyHeap _ fun _ => rfl

theorem blind_copy (arguments : NativeArgs) : Blind veil (copy arguments) := by
  have copies : ∀ (source target : Side) (length : Int32) (sourceSize targetSize : Nat)
      (sourceClass targetClass : ClassId), Blind veil
        (copyBetween source target length sourceSize targetSize sourceClass targetClass) := by
    intro source target length sourceSize targetSize sourceClass targetClass
    refine (blind_checkRange _ _ _).bind fun _ => (blind_checkRange _ _ _).bind fun _ => ?_
    split
    · exact blind_copyElements _ _ _ _ _ _ _
    · exact .pure _
  refine (blind_nonNull _ _).bind fun source => (blind_nonNull _ _).bind fun target =>
    (blind_sizeOf _).bind fun sourceSize => (blind_sizeOf _).bind fun targetSize =>
    (blind_classOf _).bind fun sourceClass => (blind_classOf _).bind fun targetClass =>
    .get_bind (fun machine _ => ?_) fun machine _ => ?_
  · simp only [elementKind_veil, displayName_veil]
  · dsimp only
    split
    · exact (blind_refuse _).bind fun _ => copies _ _ _ _ _ _ _
    · exact copies _ _ _ _ _ _ _

theorem blind_run {native : SystemNative} (admits : veil.Admits (.builtin (.system native)))
    (arguments : NativeArgs) : Blind veil (native.run arguments) := by
  cases native with
  | arraycopy => exact (blind_copy arguments).bind fun _ => .pure _
  | identityHashCode => exact .get_bind (fun _ _ => rfl) fun _ _ => .pure _
  | currentTimeMillis =>
      refine .get_bind (fun machine covers => ?_) fun _ _ => .pure _
      rw [calendar_veil covers admits]
  | nanoTime =>
      refine .get_bind (fun machine covers => ?_) fun _ _ => .pure _
      rw [now_veil covers admits]
  | gc => exact blind_collect.bind fun _ => .pure _

end SystemNative

/-! ## Threads -/

namespace ThreadNative

theorem blind_setExecution (thread : Ref) (id : ExecId) : Blind veil (setExecution thread id) :=
  blind_modifyHeap _ fun _ => rfl

theorem blind_pause (unsteady : ¬veil.steady) (millis : Int64) : Blind veil (pause millis) := by
  rw [pause]
  split
  · exact blind_raise _ _
  · refine Overlooks.bind (.modify (fun machine covers => ?_) fun machine covers => ?_)
      fun _ => .pure _
    · obtain ⟨ends, id, parked, completed, clock, -, clear, busy⟩ := covers
      exact ⟨ends, id, parked, completed, clock, fun steady => (unsteady steady).elim, clear, busy⟩
    · have waits := covers.2.2.2.2.1.2 (millis.toNatClampNeg * 1000000)
      simp only [Machine.veil, Execution.veil, modifyExec, Option.map_some, waits]
      rfl

theorem alive_veil (machine : Machine) (thread : Ref) :
    alive (machine.veil veil) thread = alive machine thread := by
  have lives : (((machine.veil veil).execution? (executionOf machine thread)).map (·.id)).isSome =
      ((machine.execution? (executionOf machine thread)).map (·.id)).isSome :=
    congrArg Option.isSome (machine.execution?_veil (fun _ => rfl) _)
  rw [Option.isSome_map, Option.isSome_map] at lives
  simp only [alive, ← lives]
  rfl

theorem blind_current : Blind veil current := by
  refine .get_bind (fun _ _ => rfl) fun machine _ => ?_
  split
  · exact .pure _
  · refine .get_bind (fun _ _ => rfl) fun _ _ => (blind_newInstance _).bind fun thread =>
      .get_bind (fun _ _ => rfl) fun _ _ => (blind_setExecution _ _).bind fun _ =>
      Overlooks.bind (blind_modifyExec ?_ fun _ => rfl) fun _ => .pure _
    exact fun _ => ⟨rfl, rfl, rfl, fun busy => busy⟩

theorem blind_run {native : ThreadNative} (admits : veil.Admits (.builtin (.thread native)))
    (reentry : Reentry) (arguments : NativeArgs) : Blind veil (native.run reentry arguments) := by
  cases native with
  | start => exact admits.elim
  | isAlive =>
      exact (blind_nonNull _ _).bind fun _ => .get_bind (fun machine _ => by rw [alive_veil])
        fun _ _ => .pure _
  | sleep => exact blind_pause admits _
  | yield =>
      refine Overlooks.bind (.modify (fun machine covers => ?_) fun _ _ => rfl) fun _ => .pure _
      obtain ⟨ends, id, parked, completed, clock, -, clear, busy⟩ := covers
      exact ⟨ends, id, parked, completed, clock, fun steady => (admits steady).elim, clear, busy⟩
  | currentThread => exact blind_current

end ThreadNative

theorem Builtin.blind_run {builtin : Builtin} (admits : veil.Admits (.builtin builtin))
    (reentry : Reentry) (arguments : NativeArgs) : Blind veil (builtin.run reentry arguments) := by
  cases builtin with
  | object native => exact native.blind_run arguments
  | string native => exact native.blind_run arguments
  | cls native => exact native.blind_run arguments
  | system native => exact SystemNative.blind_run admits arguments
  | thread native => exact ThreadNative.blind_run admits reentry arguments
  | math native => exact .pure _
  | float native => exact .pure _
  | double native => exact .pure _
  | printStream native => exact native.blind_run arguments

/-! ## Scripts of an embedder -/

namespace Host

theorem blind_fault {α : Type} (stateFault : StateFault) :
    Blind veil (Host.fault stateFault : Host α) := .throw _

theorem blind_load (name : String) : Blind veil (load name) := by
  intro machine covers
  obtain ⟨kept, same⟩ : veil.Covers { machine with registry := (machine.registry.load name).2 } ∧ _ :=
    linking_veil covers fun unnoticed =>
      Linking.overlooks_load unnoticed machine.registry.path [] name
  have linked : (machine.veil veil).registry.load name = ((machine.registry.load name).1,
      (machine.registry.load name).2.recode veil.recoding) := same
  cases ran : machine.registry.load name with
  | mk loaded registry =>
      rw [ran] at linked
      have covered : veil.Covers { machine with registry } := by
        rw [show registry = (machine.registry.load name).2 by rw [ran]]
        exact kept
      cases loaded with
      | ok id =>
          refine Ends.of_ok (by rw [load, linking, ran]) ⟨covered, ?_⟩
          rw [load, linking, linked]
          rfl
      | error error =>
          refine Ends.of_error (by rw [load, linking, ran]) ⟨covered, ?_⟩
          rw [load, linking, linked]
          rfl

theorem blind_findMethod (owner : ClassId) (name descriptor : String) :
    Blind veil (findMethod owner name descriptor) := by
  refine .get_bind (fun machine _ => ?_) fun machine _ => ?_
  · simp only [toClassTable_veil, ClassTable.lookupMethod_recode]
  · split
    · exact .pure _
    · refine .get_bind (fun machine _ => ?_) fun machine _ => .throw _
      rw [displayName_veil]

theorem blind_findStatic (className name descriptor : String) :
    Blind veil (findStatic className name descriptor) := by
  refine (blind_load className).bind fun cls => (blind_findMethod cls _ _).bind fun method =>
    .get_bind (fun machine _ => ?_) fun machine _ => ?_
  · rw [method_veil, methodLabel_veil]
    rfl
  · split
    · exact .pure _
    · exact blind_fault _

theorem blind_ofGuest {α : Type} {step : Guest α} (blind : Blind veil step) :
    Blind veil (ofGuest step) := by
  intro machine covers
  cases ran : step machine with
  | ok value after =>
      obtain ⟨kept, too⟩ := blind.eq_of_ok covers ran
      exact Ends.of_ok (by rw [ofGuest, ran]) ⟨kept, by rw [ofGuest, too]⟩
  | error thrown after =>
      obtain ⟨kept, too⟩ := blind.eq_of_error covers ran
      cases thrown with
      | fatal error => exact Ends.of_error (by rw [ofGuest, ran]) ⟨kept, by rw [ofGuest, too]⟩
      | exception ref =>
          refine Ends.of_error (by rw [ofGuest, ran]) ⟨kept, ?_⟩
          have named : (after.veil veil).classNameOf ref = after.classNameOf ref := by
            have names : ∀ id, ((after.veil veil).registry.class? id).map Class.displayName =
                (after.registry.class? id).map Class.displayName := by
              intro id
              rw [toClassTable_veil, ClassTable.class?_recode]
              cases after.registry.class? id <;> rfl
            simp only [classNameOf, Option.map_bind, Function.comp_def, names]
            rfl
          rw [ofGuest, too]
          simp only [named]
          rfl

end Host

namespace HostAction

theorem blind_request {α : Type} {step : Host α} (blind : Blind veil step) :
    Blind veil (request step) := by
  intro machine covers
  cases ran : step machine with
  | ok value after =>
      obtain ⟨kept, too⟩ := blind.eq_of_ok covers ran
      exact Ends.of_ok (by rw [request, ran]) ⟨kept, by rw [request, too]⟩
  | error error after =>
      obtain ⟨kept, too⟩ := blind.eq_of_error covers ran
      exact Ends.of_ok (by rw [request, ran]) ⟨kept, by rw [request, too]⟩

variable {reentry : Reentry} (refuses : reentry.Refuses) (busy : veil.busy)

include refuses busy

/-- A call that is refused changes nothing. -/
theorem blind_call (method : MethodId) (arguments : List Value) :
    Blind veil (reentry.call method arguments) := by
  obtain ⟨refusal, refused⟩ := refuses
  intro machine covers
  have running : machine.exec.isIdle = false := covers.running busy
  have fails : ∀ other : Machine, other.exec.isIdle = false →
      reentry.call method arguments other = .error (refusal other.exec.id) other := by
    intro other running
    simp only [Reentry.call, bind, EStateM.bind, refused method arguments other running]
  exact Ends.of_error (fails machine running) ⟨covers, fails (machine.veil veil) running⟩

theorem blind_run (action : HostAction) : Blind veil (action.run reentry) := by
  induction action with
  | finish value => exact .pure _
  | raise exception => exact .throw _
  | fail error => exact blind_fatal _
  | newString text next ih =>
      exact (blind_request (Host.blind_ofGuest (blind_newString text))).bind fun made => ih made
  | invokeStatic owner name descriptor arguments next ih =>
      exact (blind_request ((Host.blind_findStatic _ _ _).bind fun method =>
        blind_call refuses busy method arguments)).bind fun result => ih result
  | depth exec next ih =>
      refine .get_bind (fun machine _ => ?_) fun machine _ => ih _
      have deep : ((machine.veil veil).execution? exec).map (·.depth) =
          (machine.execution? exec).map (·.depth) := machine.execution?_veil (fun _ => rfl) exec
      have counts : ∀ found : Option Execution,
          found.elim 0 Execution.depth = (found.map (·.depth)).getD 0 := by
        rintro (_ | _) <;> rfl
      rw [Machine.depth, Machine.depth, counts, counts, deep]
  | terminate next ih =>
      exact Overlooks.bind (.modify (fun _ covers => covers) fun _ _ => rfl) fun _ => ih

end HostAction

theorem Native.blind_run {reentry : Reentry} (refuses : reentry.Refuses) {native : Native}
    (admits : veil.Admits native) (arguments : NativeArgs) :
    Blind veil (native.run reentry arguments) := by
  cases native with
  | builtin own => exact Builtin.blind_run admits reentry arguments
  | host action => exact HostAction.blind_run refuses admits (action arguments)

end Jvm
