import Jvm.Proofs.Changing.Constants
import Jvm.Proofs.Machine.Invocation

/-!
# Frames and natives keep objects in shape

A lock is noted in its class or object, the end of an initializer in the state of its
class. Everything else about frames is a matter of executions only.

A native reads objects and makes new ones, copies elements, writes fields of strings and
threads, and starts executions. Where it calls back into the machine, it keeps objects in
shape if those calls do.
-/

namespace Jvm

open Machine

/-! ## Locks, returns and unwinding -/

namespace Machine

variable {scope : Scope} (machine : Machine)

section

variable {lock : Lock} (allowed : scope.locks lock)

include allowed

theorem shapes_enterLock : ShapedIn scope machine (machine.enterLock lock).2 := by
  rw [enterLock]
  split
  · exact .refl
  next found =>
    split
    next entered => exact .single (.lock allowed found (.inl entered))
    next => exact .refl

theorem shapes_exitLock : ShapedIn scope machine (machine.exitLock lock).2 := by
  rw [exitLock]
  split
  next left =>
    obtain ⟨held, found, exited⟩ := Option.bind_eq_some_iff.mp left
    exact .single (.lock allowed found (.inr exited))
  next => exact .refl

end

theorem shapes_leaveInitializer (id : MethodId) (succeeded : Bool) :
    ShapedIn scope machine (machine.leaveInitializer id succeeded) := by
  rw [leaveInitializer]
  split
  · exact .single (.classes (.finishInitialization _ _ _)
      (ClassTable.view_finishInitialization Class.monitor fun _ _ => rfl)
      (ClassTable.view_finishInitialization Class.fixed fun _ _ => rfl))
  · exact .refl

/-- A native that is bound, or a byte of the code that is patched, leaves a method what it
is. -/
theorem shapes_modifyMethod (id : MethodId) {change : Method → Method}
    (same : ∀ method, (change method).bodiless = method.bodiless) :
    ShapedIn scope machine (machine.modifyTable fun table => table.modifyMethod id change) :=
  shapes_modifyClass id.owner (.of_method _ _ same) (fun _ => rfl) (fun _ => rfl) fun _ => rfl

theorem shapes_dropFrame (resume : FrameContext → UInt32) :
    Shapes machine (machine.dropFrame resume) :=
  .single (.frames trivial rfl rfl rfl rfl)

theorem shapes_reset : Shapes machine (machine.modifyExec Execution.reset) :=
  .single (.frames trivial rfl rfl rfl rfl)

theorem shapes_abandonFrame (id : MethodId) : Shapes machine (machine.abandonFrame id) := by
  rw [abandonFrame]
  split
  · exact ((machine.shapes_exitLock trivial).trans (shapes_leaveInitializer _ id false)).trans
      (shapes_dropFrame _ _)
  · exact (machine.shapes_leaveInitializer id false).trans (shapes_dropFrame _ _)

theorem shapes_leaveInitializers (methods : List MethodId) : ShapedIn scope machine
    (methods.foldl (fun machine id => machine.leaveInitializer id false) machine) := by
  induction methods generalizing machine with
  | nil => exact .refl
  | cons id rest ih => exact (machine.shapes_leaveInitializer id false).trans (ih _)

theorem shapes_abandonExecution : Shapes machine machine.abandonExecution := by
  have releases : Shapes machine (machine.releaseLocks machine.exec.id) :=
    .single (.release (fun _ => trivial) _)
  exact (releases.trans (shapes_leaveInitializers _ _)).trans (shapes_reset _)

end Machine

namespace Guest

variable {scope : Scope}

theorem paces_modifyExec {change : Execution → Execution}
    (remains : ∀ exec : Execution, exec.Remains (change exec)) :
    PacesIn scope (modify fun machine => machine.modifyExec change : Guest PUnit) :=
  .modify fun _ => shapes_modifyExec remains

theorem paces_enterLock {lock : Lock} (allowed : scope.locks lock) :
    PacesIn scope (enterLock lock) :=
  .modifyGet fun machine => machine.shapes_enterLock allowed

theorem paces_exitLock {lock : Lock} (allowed : scope.locks lock) :
    PacesIn scope (exitLock lock) :=
  .modifyGet fun machine => machine.shapes_exitLock allowed

theorem paces_returnFromFrame (value : Value) : Paces (returnFromFrame value) := by
  have leaves : ∀ id : MethodId, Paces (handOver id value) := by
    intro id
    refine PacesIn.bind (.modify fun machine => machine.shapes_leaveInitializer id true) fun _ =>
      PacesIn.bind (.modify fun machine => machine.shapes_dropFrame _) fun _ =>
      PacesIn.get.bind fun after => ?_
    split
    · exact PacesIn.bind (.modify fun _ => .single (.frames trivial rfl rfl rfl rfl)) fun _ => .pure _
    · exact (paces_onStack _).bind fun _ => .pure _
  refine PacesIn.get.bind fun machine => ?_
  dsimp only
  split
  · exact paces_fault _
  · split
    · exact leaves _
    · refine (paces_exitLock trivial).bind fun released => ?_
      split
      · exact (paces_raise _ _).bind fun _ => leaves _
      · exact leaves _

/-! ### Unwinding -/

theorem paces_findHandlerIn (owner : ClassId) (pc : UInt32) (thrown : ClassId)
    (handlers : List Handler) : PacesIn scope (findHandlerIn owner pc thrown handlers) := by
  induction handlers with
  | nil => exact .pure _
  | cons handler rest ih =>
      rw [findHandlerIn]
      split
      · exact ih
      · split
        · exact .pure _
        · refine (paces_linkClass owner _).bind fun loaded => ?_
          split
          · refine PacesIn.get.bind fun machine => ?_
            split
            · exact .pure _
            · exact ih
          · exact ih

theorem paces_findHandler (id : MethodId) (pc : UInt32) (thrown : ClassId) :
    PacesIn scope (findHandler id pc thrown) := by
  refine PacesIn.get.bind fun machine => ?_
  split
  · exact paces_findHandlerIn _ _ _ _
  · exact .pure _

theorem paces_enterHandler (id : MethodId) (handlerPc : UInt32) (ref : Ref) :
    PacesIn scope (enterHandler id handlerPc ref) :=
  .modify fun _ => shapes_modifyExec fun _ => ⟨rfl, rfl, rfl⟩

theorem paces_unwindFrames (ref : Ref) (thrown : ClassId) (fuel : Nat)
    (trace : List (MethodId × UInt32)) : Paces (unwindFrames ref thrown fuel trace) := by
  induction fuel generalizing trace with
  | zero => exact paces_fatal _
  | succ fuel ih =>
      refine PacesIn.get.bind fun machine => ?_
      dsimp only
      split
      · exact PacesIn.bind (.modify shapes_reset) fun _ => paces_fatal _
      · refine (paces_findHandler _ _ _).bind fun found => ?_
        split
        · exact paces_enterHandler _ _ _
        · exact PacesIn.bind (.modify fun machine => machine.shapes_abandonFrame _) fun _ => ih _

theorem paces_unwind (ref : Ref) : Paces (unwind ref) := by
  refine PacesIn.get.bind fun machine => ?_
  split
  · exact paces_fault _
  · exact paces_unwindFrames _ _ _ _

end Guest

namespace Host

variable {scope : Scope} {α : Type}

theorem paces_fault (fault : StateFault) : PacesIn scope (Host.fault fault : Host α) := .throw _

theorem paces_ofGuest {step : Guest α} (paces : PacesIn scope step) :
    PacesIn scope (ofGuest step) :=
  fun machine => moves_ofGuest (paces machine)

theorem paces_unwind (ref : Ref) : Paces (unwind ref) := paces_ofGuest (Guest.paces_unwind ref)

end Host

/-! ## Calls that natives make -/

/-- Whether the calls that a native may make keep objects in shape. -/
structure Reentry.Paces (reentry : Reentry) : Prop where
  enter : ∀ method arguments, Machine.Paces (reentry.enter method arguments)
  complete : Machine.Paces reentry.complete

variable {scope : Scope}

namespace Guest

theorem paces_nonNull (ref : Option Ref) (what : String) : PacesIn scope (nonNull ref what) := by
  cases ref with
  | none => exact paces_raiseNull _
  | some ref => exact .pure _

theorem paces_unitsOf (ref : Option Ref) : PacesIn scope (unitsOf ref) :=
  (paces_nonNull ref _).bind fun _ => PacesIn.get.bind fun _ => paces_require _ _

end Guest

open Guest

/-! ## Text -/

theorem Printed.paces_toObject (printed : Printed) (arguments : NativeArgs) (index : Nat) :
    PacesIn scope (printed.toObject arguments index) := by
  cases printed with
  | char => exact paces_newStringOfUnits _
  | _ => exact PacesIn.get.bind fun _ => paces_newString _

namespace StringNative

theorem paces_unitAt (units : List UInt16) (index : Int32) :
    PacesIn scope (unitAt units index) := by
  rw [unitAt]
  split
  · exact .pure _
  · exact paces_raise _ _

theorem paces_textHash (receiver : Ref) : PacesIn scope (textHash receiver) := by
  refine PacesIn.get.bind fun machine => PacesIn.get.bind fun machine => ?_
  dsimp only
  split
  · exact .pure _
  · refine (paces_unitsOf _).bind fun units => ?_
    exact (paces_modifyFields (fun _ => receiver) fun _ fields => fields.size_set _ _).bind
      fun _ => .pure _

theorem paces_join (receiver other : Option Ref) : PacesIn scope (join receiver other) := by
  refine (paces_unitsOf _).bind fun units => (paces_unitsOf _).bind fun tail => ?_
  split
  · exact .pure _
  · exact (paces_newStringOfUnits _).bind fun _ => .pure _

theorem paces_run (native : StringNative) (arguments : NativeArgs) :
    PacesIn scope (native.run arguments) := by
  cases native with
  | length => exact (paces_unitsOf _).bind fun _ => .pure _
  | isEmpty => exact (paces_unitsOf _).bind fun _ => .pure _
  | charAt => exact (paces_unitsOf _).bind fun _ => paces_unitAt _ _
  | equals => exact (paces_nonNull _ _).bind fun _ => PacesIn.get.bind fun _ => .pure _
  | hashCode => exact (paces_nonNull _ _).bind paces_textHash
  | intern =>
      exact (paces_nonNull _ _).bind fun _ => (paces_internObject? _).bind fun _ =>
        (paces_require _ _).bind fun _ => .pure _
  | concat => exact paces_join _ _
  | valueOf printed => exact (printed.paces_toObject _ _).bind fun _ => .pure _

end StringNative

theorem PrintNative.paces_run (native : PrintNative) (arguments : NativeArgs) :
    PacesIn scope (native.run arguments) := by
  refine (paces_nonNull _ _).bind fun stream => PacesIn.get.bind fun machine => ?_
  refine PacesIn.bind (.modify fun machine => ?_) fun _ => .pure _
  rw [write]
  split <;> exact .single (.aside ⟨⟨rfl, rfl, rfl⟩, rfl⟩ rfl rfl rfl rfl)

/-! ## Objects and classes -/

namespace ObjectNative

theorem paces_wake (receiver : Ref) : PacesIn scope (wake receiver) := by
  refine PacesIn.get.bind fun machine => ?_
  dsimp only
  split
  · exact .pure _
  · exact paces_raise _ _

theorem paces_run (native : ObjectNative) (arguments : NativeArgs) :
    PacesIn scope (native.run arguments) := by
  refine (paces_nonNull _ _).bind fun receiver => ?_
  cases native with
  | hashCode => exact PacesIn.get.bind fun _ => .pure _
  | getClass => exact (paces_classOf _).bind fun _ => (paces_mirror _).bind fun _ => .pure _
  | clone => exact (paces_cloneObject _).bind fun _ => .pure _
  | toText =>
      exact (paces_classOf _).bind fun _ => PacesIn.get.bind fun _ => (paces_newString _).bind
        fun _ => .pure _
  | notify => exact paces_wake receiver

end ObjectNative

namespace ClassNative

theorem paces_thisClass (arguments : NativeArgs) : PacesIn scope (thisClass arguments) :=
  (paces_nonNull _ _).bind fun _ => PacesIn.get.bind fun _ => paces_require _ _

theorem paces_byName (arguments : NativeArgs) : PacesIn scope (byName arguments) := by
  refine (paces_nonNull _ _).bind fun ref => PacesIn.get.bind fun machine =>
    (paces_require _ _).bind fun name => ?_
  dsimp only
  split
  · exact paces_raise _ _
  · refine (paces_loadRaw _).bind fun loaded => ?_
    split
    · exact (paces_mirror _).bind fun _ => .pure _
    · exact paces_raise _ _
    · exact paces_fatal _

theorem paces_superclassMirror (id : ClassId) : PacesIn scope (superclassMirror id) := by
  refine PacesIn.get.bind fun machine => ?_
  dsimp only
  split
  · exact (paces_mirror _).bind fun _ => .pure _
  · exact .pure _

theorem paces_run (native : ClassNative) (arguments : NativeArgs) :
    PacesIn scope (native.run arguments) := by
  cases native with
  | forName => exact paces_byName arguments
  | getName =>
      exact (paces_thisClass _).bind fun _ => PacesIn.get.bind fun _ => (paces_newString _).bind
        fun _ => .pure _
  | isInstance =>
      refine (paces_thisClass _).bind fun id => ?_
      split
      · exact .pure _
      · exact (paces_classOf _).bind fun _ => PacesIn.get.bind fun _ => .pure _
  | isArray => exact (paces_thisClass _).bind fun _ => PacesIn.get.bind fun _ => .pure _
  | isInterface => exact (paces_thisClass _).bind fun _ => PacesIn.get.bind fun _ => .pure _
  | getSuperclass => exact (paces_thisClass _).bind paces_superclassMirror

end ClassNative

/-! ## Copies, clock and collection -/

namespace SystemNative

variable {α : Type}

theorem paces_refuse (message : String) :
    PacesIn scope (refuse message : Guest α) := paces_raise _ _

theorem paces_sizeOf (side : Side) : PacesIn scope (sizeOf side) := by
  refine PacesIn.get.bind fun machine => ?_
  split
  · exact .pure _
  · exact PacesIn.get.bind fun _ => (paces_classOf _).bind fun _ => paces_refuse _

theorem paces_checkRange (side : Side) (length : Int32) (size : Nat) :
    PacesIn scope (checkRange side length size) := by
  rw [checkRange]
  split
  · exact paces_raise _ _
  · exact .pure _

theorem paces_copyChecked (target : Ref) (component : ClassId) (index : Nat)
    (elements : List (Option Ref)) :
    PacesIn scope (copyChecked target component index elements) := by
  induction elements generalizing index with
  | nil => exact .pure _
  | cons element rest ih =>
      have stores : PacesIn scope (do
          modify fun machine => machine.modifyHeap fun heap => heap.modifyArray target fun data =>
            data.set index (.ref element)
          copyChecked target component (index + 1) rest : Guest Unit) :=
        (paces_setElement target index _).bind fun _ => ih _
      rw [copyChecked.eq_def]
      cases element with
      | none => exact stores
      | some ref =>
          refine (paces_classOf ref).bind fun cls => PacesIn.get.bind fun machine => ?_
          dsimp only
          split
          · exact (paces_refuse _).bind fun _ => stores
          · exact stores

theorem paces_copyElements (source target : Ref) (sourceClass targetClass : ClassId)
    (start place count : Nat) :
    PacesIn scope (copyElements source target sourceClass targetClass start place count) := by
  rw [copyElements]
  split
  · exact .modify fun _ => shapes_modifyHeap (.modifyArray _ _
      (fun data => data.byteSize_copyWithin start place count)
      fun data => data.kind_copyWithin start place count)
  · refine PacesIn.get.bind fun machine => ?_
    split
    · exact paces_copyChecked _ _ _ _
    · refine .modify fun machine => shapes_modifyHeap ?_
      split
      · exact .refl _
      · exact .modifyArray _ _ (fun data => data.byteSize_copyFrom? place _ start count)
          fun data => data.kind_copyFrom? place _ start count

theorem paces_copy (arguments : NativeArgs) : PacesIn scope (copy arguments) := by
  have copies : ∀ (source target : Side) (length : Int32) (sourceSize targetSize : Nat)
      (sourceClass targetClass : ClassId), PacesIn scope
        (copyBetween source target length sourceSize targetSize sourceClass targetClass) := by
    intro source target length sourceSize targetSize sourceClass targetClass
    refine (paces_checkRange _ _ _).bind fun _ => (paces_checkRange _ _ _).bind fun _ => ?_
    split
    · exact paces_copyElements _ _ _ _ _ _ _
    · exact .pure _
  refine (paces_nonNull _ _).bind fun source => (paces_nonNull _ _).bind fun target =>
    (paces_sizeOf _).bind fun sourceSize => (paces_sizeOf _).bind fun targetSize =>
    (paces_classOf _).bind fun sourceClass => (paces_classOf _).bind fun targetClass =>
    PacesIn.get.bind fun machine => ?_
  dsimp only
  split
  · exact (paces_refuse _).bind fun _ => copies _ _ _ _ _ _ _
  · exact copies _ _ _ _ _ _ _

theorem paces_run (native : SystemNative) (arguments : NativeArgs) :
    PacesIn scope (native.run arguments) := by
  cases native with
  | arraycopy => exact (paces_copy arguments).bind fun _ => .pure _
  | identityHashCode => exact PacesIn.get.bind fun _ => .pure _
  | currentTimeMillis => exact PacesIn.get.bind fun _ => .pure _
  | nanoTime => exact PacesIn.get.bind fun _ => .pure _
  | gc => exact paces_collect.bind fun _ => .pure _

end SystemNative

/-! ## Threads -/

namespace Machine

variable (machine : Machine)

theorem shapes_switchBack (id : ExecId) : Shapes machine (machine.switchBack id).2 := by
  rw [switchBack]
  split
  next previous other found =>
      obtain ⟨exec, -, same⟩ := Option.map_eq_some_iff.mp found
      cases same
      exact .single (.frames trivial rfl rfl rfl rfl)
  next => exact .single (.frames trivial rfl rfl rfl rfl)

theorem shapes_park (exec : Execution) : Shapes machine (machine.park exec) :=
  .single (.frames trivial rfl rfl rfl rfl)

end Machine

namespace Reentry.Paces

variable {reentry : Reentry} (paces : reentry.Paces)

include paces

theorem call (method : MethodId) (arguments : List Value) :
    Machine.Paces (reentry.call method arguments) := by
  refine (paces.enter method arguments).bind fun entered => ?_
  split
  · exact .pure _
  · exact paces.complete

theorem prepare (method : MethodId) (arguments : List Value) :
    Machine.Paces (reentry.prepare method arguments) := by
  intro machine
  have begins : Shapes machine machine.spawn := .single (.frames trivial rfl rfl rfl rfl)
  have same := reentry.prepare_eq method arguments machine
  cases ran : reentry.enter method arguments machine.spawn with
  | error error after =>
      rw [ran] at same
      have entered := begins.trans ((paces.enter method arguments).error ran)
      exact Moves.of_error same (entered.trans (after.shapes_switchBack _))
  | ok value after =>
      rw [ran] at same
      have entered := begins.trans ((paces.enter method arguments).ok ran)
      have back := entered.trans (after.shapes_switchBack machine.exec.id)
      cases value with
      | some value => exact Moves.of_ok same (back.tail (.frames trivial rfl rfl rfl rfl)) trivial
      | none => exact Moves.of_ok same (back.trans (shapes_park _ _)) trivial

end Reentry.Paces

namespace Guest

theorem paces_ofHost {α : Type} {step : Host α} (paces : PacesIn scope step) :
    PacesIn scope (ofHost step) :=
  fun machine => moves_ofHost (paces machine)

end Guest

namespace ThreadNative

theorem paces_setExecution (thread : Ref) (id : ExecId) : PacesIn scope (setExecution thread id) :=
  paces_modifyFields (fun _ => thread) fun _ fields => fields.size_set _ _

theorem paces_begin {reentry : Reentry} (paces : reentry.Paces) (thread : Ref) :
    Paces (begin reentry thread) := by
  have starts : Paces (launch reentry thread) := by
    rw [launch]
    refine (paces_classOf _).bind fun cls => PacesIn.get.bind fun machine => ?_
    dsimp only
    split
    · exact paces_raise _ _
    · refine (paces_ofHost (paces.prepare _ _)).bind fun id =>
        (paces_setExecution thread id).bind fun _ => ?_
      exact PacesIn.bind (.modify fun _ => .single (.frames trivial rfl rfl rfl rfl)) fun _ => .pure _
  refine PacesIn.get.bind fun machine => ?_
  split
  · exact (paces_raise _ _).bind fun _ => starts
  · exact starts

theorem paces_pause (millis : Int64) : PacesIn scope (pause millis) := by
  rw [pause]
  split
  · exact paces_raise _ _
  · exact PacesIn.bind (.modify fun _ => .single (.aside ⟨⟨rfl, rfl, rfl⟩, rfl⟩ rfl rfl rfl rfl))
      fun _ => .pure _

theorem paces_current : PacesIn scope current := by
  refine PacesIn.get.bind fun machine => ?_
  split
  · exact .pure _
  · have notes : ∀ thread, PacesIn scope (do
        setExecution thread (← get).exec.id
        modify fun machine => machine.modifyExec fun exec =>
          { exec with threadObject := some thread }
        pure (ofRef thread) : Guest Value) := fun thread =>
      PacesIn.get.bind fun _ => (paces_setExecution thread _).bind fun _ =>
        PacesIn.bind (paces_modifyExec fun _ => ⟨rfl, rfl, rfl⟩) fun _ => .pure _
    refine PacesIn.get_bind fun machine =>
      (moves_newInstance fun shapely => shapely.known.thread).bind fun thread made _ _ => ?_
    exact notes thread made

/-- Natives of threads that start none. -/
theorem paces_run_of_ne {reentry : Reentry} {native : ThreadNative} (differs : native ≠ .start)
    (arguments : NativeArgs) : PacesIn scope (native.run reentry arguments) := by
  cases native with
  | start => exact (differs rfl).elim
  | isAlive => exact (paces_nonNull _ _).bind fun _ => PacesIn.get.bind fun _ => .pure _
  | sleep => exact paces_pause _
  | yield =>
      exact PacesIn.bind (.modify fun _ => .single (.aside ⟨⟨rfl, rfl, rfl⟩, rfl⟩ rfl rfl rfl rfl))
        fun _ => .pure _
  | currentThread => exact paces_current

theorem paces_run {reentry : Reentry} (paces : reentry.Paces) (native : ThreadNative)
    (arguments : NativeArgs) : Paces (native.run reentry arguments) := by
  by_cases starts : native = .start
  · subst starts
    exact (paces_nonNull _ _).bind fun _ => paces_begin paces _
  · exact paces_run_of_ne starts arguments

end ThreadNative

/-! ## Dispatch -/

namespace Host

theorem paces_linking {steps : Registry → Except LoadError ClassId × Registry}
    (counts : ∀ machine : Machine, ShapedIn scope machine { machine with
      registry := (steps machine.registry).2 }) : PacesIn scope (linking steps) := by
  intro machine
  have reached := counts machine
  cases ran : steps machine.registry with
  | mk loaded registry =>
      rw [ran] at reached
      cases loaded with
      | ok id => exact Moves.of_ok (by rw [linking, ran]) reached trivial
      | error error => exact Moves.of_error (by rw [linking, ran]) reached

theorem paces_load (name : String) : PacesIn scope (load name) :=
  paces_linking fun _ => shapes_load name

theorem paces_findMethod (owner : ClassId) (name descriptor : String) :
    PacesIn scope (findMethod owner name descriptor) := by
  refine PacesIn.get.bind fun machine => ?_
  split
  · exact .pure _
  · exact PacesIn.get.bind fun _ => .throw _

theorem paces_findStatic (className name descriptor : String) :
    PacesIn scope (findStatic className name descriptor) := by
  refine (paces_load className).bind fun cls => (paces_findMethod cls _ _).bind fun method =>
    PacesIn.get.bind fun machine => ?_
  split
  · exact .pure _
  · exact paces_fault _

end Host

/-- Natives of the machine's own that start no thread. -/
theorem Builtin.paces_run_of_ne {reentry : Reentry} {builtin : Builtin}
    (differs : builtin ≠ .thread .start) (arguments : NativeArgs) :
    PacesIn scope (builtin.run reentry arguments) := by
  cases builtin with
  | object native => exact native.paces_run arguments
  | string native => exact native.paces_run arguments
  | cls native => exact native.paces_run arguments
  | system native => exact native.paces_run arguments
  | thread native =>
      exact ThreadNative.paces_run_of_ne (fun same => differs (congrArg Builtin.thread same))
        arguments
  | math native => exact .pure _
  | float native => exact .pure _
  | double native => exact .pure _
  | printStream native => exact native.paces_run arguments

variable {reentry : Reentry} (paces : reentry.Paces)

include paces

theorem Builtin.paces_run (builtin : Builtin) (arguments : NativeArgs) :
    Paces (builtin.run reentry arguments) := by
  by_cases starts : builtin = .thread .start
  · subst starts
    exact ThreadNative.paces_run paces .start arguments
  · exact paces_run_of_ne starts arguments

namespace HostAction

omit paces in
theorem paces_request {α : Type} {step : Host α} (paces : PacesIn scope step) :
    PacesIn scope (request step) :=
  fun machine => moves_request (paces machine)

theorem paces_run (action : HostAction) : Paces (action.run reentry) := by
  induction action with
  | finish value => exact .pure _
  | raise exception => exact .throw _
  | fail error => exact paces_fatal _
  | newString text next ih =>
      exact (paces_request (Host.paces_ofGuest (paces_newString text))).bind fun made => ih made
  | invokeStatic owner name descriptor arguments next ih =>
      exact (paces_request ((Host.paces_findStatic _ _ _).bind fun method =>
        paces.call method arguments)).bind fun result => ih result
  | depth exec next ih => exact PacesIn.get.bind fun machine => ih _
  | terminate next ih =>
      exact PacesIn.bind (.modify fun _ => .single (.aside ⟨⟨rfl, rfl, rfl⟩, rfl⟩ rfl rfl rfl rfl))
        fun _ => ih

end HostAction

theorem Native.paces_run (native : Native) (arguments : NativeArgs) :
    Paces (native.run reentry arguments) := by
  cases native with
  | builtin own => exact own.paces_run paces arguments
  | host action => exact (action arguments).paces_run paces

end Jvm
