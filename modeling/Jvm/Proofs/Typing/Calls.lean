import Jvm.Proofs.Changing.Slices
import Jvm.Proofs.Machine.Runs
import Jvm.Proofs.Typing.Writes

/-!
# Instructions and the clones that they make

A clone has the elements of an array that was there when the call was made. Where that array is
reached, it is still there when the elements are written. No instruction tells that it will clone
anything, since the method that it names may be bound to any native. So an instruction is run as
far as to the native that it calls: what that native is and what it is called with tells whether
the instruction keeps arrays suited to their elements.
-/

namespace Jvm

set_option mvcgen.warning false

namespace Guest

/-! ## Natives that are about to run -/

/-- The native that a method is bound to, and its arguments on top of the stack. -/
def boundNative (id : MethodId) : Guest (Option (Native × NativeArgs)) := do
  let native ← bindNative id
  let machine ← get
  let size := (machine.method id).frameArgSlots.toNat
  let sp := machine.exec.stack.sp
  if sp < size then pure none
  else pure (some (native, ⟨machine.exec.stack.rawSlots (sp - size) size⟩))

/-- The native that a call of a method runs, and its arguments, if it runs one. -/
def nativeOf (id : MethodId) : Guest (Option (Native × NativeArgs)) := do
  let machine ← get
  let method := machine.method id
  if method.isAbstract then pure none
  else if !(← takeLock (callLock? machine id)) then pure none
  else if method.isNative then boundNative id
  else pure none

/-- The native that an instruction of a method runs, if it is a call of one. -/
def nativeIn (id : MethodId) (pc : UInt32) (instr : Instr) :
    Guest (Option (Native × NativeArgs)) := do
  match instr with
  | .invoke mode index => do
    let resolved ← resolveMethod id.owner index
    let machine ← get
    if resolved.isStatic then pure none
    else
      match machine.exec.stack.peekRef (resolved.argSlots.toNat - 1) with
      | none => pure none
      | some receiver => do
        let target ← selectTarget mode receiver resolved.method
        nativeOf target
  | .invokeStatic index => do
    let resolved ← resolveMethod id.owner index
    if !resolved.isStatic then pure none
    else if ← ensureInitialized resolved.method.owner pc then pure none
    else nativeOf resolved.method
  | _ => pure none

/-- The native that the instruction at the current pc runs, if it is a call of one. -/
def nextNative : Guest (Option (Native × NativeArgs)) := askedNext none nativeIn

end Guest

namespace Machine

/-- Whether a native that is about to run clones nothing but what is reached. -/
def ReachesCloned (machine : Machine) (running : Option (Native × NativeArgs)) : Prop :=
  ∀ arguments receiver, running = some (.builtin (.object .clone), arguments) →
    arguments.receiver = some receiver → machine.Reachable receiver

/-- Whether the native that is found by running so far clones nothing but what is reached. -/
def Foresees (finds : Guest (Option (Native × NativeArgs))) (machine : Machine) : Prop :=
  Ends finds machine (fun running after => after.ReachesCloned running) fun _ _ => True

/-- Whether the instruction that comes next clones nothing but what is reached when the clone is
made. -/
def ClonesReached (machine : Machine) : Prop :=
  machine.exec.pendingException = none →
    Foresees Guest.nextNative (machine.modifyHeap Heap.clearPending)

end Machine

open Guest Machine

/-! ## Calls that are staged -/

namespace Machine

variable {machine : Machine}

/-- Objects stay as they are while something else of the heap is changed item by item. -/
theorem Typed.foldl_heap (typed : machine.Typed) {α : Type} {change : Heap → α → Heap}
    (rewrites : ∀ (heap : Heap) item, heap.Rewrites (change heap item))
    (objects : ∀ heap item, (change heap item).objects = heap.objects) (items : List α) :
    (machine.modifyHeap fun heap => items.foldl change heap).Typed := by
  have same (heap : Heap) : (items.foldl change heap).objects = heap.objects := by
    induction items generalizing heap with
    | nil => rfl
    | cons item rest ih => exact (ih _).trans (objects heap item)
  have changed := Heap.Rewrites.foldl change rewrites items machine.heap
  exact typed.of_sameArrays changed.toSameShapes changed.toSameCounts (.of_objects (same _))

theorem Typed.pinAll (typed : machine.Typed) (values : List Value) :
    (Host.pinAll values machine).Typed :=
  typed.foldl_heap .pin (fun _ _ => rfl) _

theorem Typed.unpinAll (typed : machine.Typed) (values : List Value) :
    (Host.unpinAll values machine).Typed :=
  typed.foldl_heap .unpin (fun _ _ => rfl) _

theorem Typed.modifyMethod (typed : machine.Typed) (id : MethodId) (change : Method → Method) :
    (machine.modifyTable fun table => table.modifyMethod id change).Typed :=
  typed.modifyClass id.owner fun _ => rfl

end Machine

namespace Guest

variable {machine : Machine}

@[spec] theorem keeps_bindNative (id : MethodId) : KeepsTyped (bindNative id) := by
  mvcgen [bindNative]
  exact Typed.modifyMethod ‹_› id _

/-- A method with code gets a frame. -/
theorem ends_invoke_of_code (typed : machine.Typed) {id : MethodId}
    (code : (machine.method id).isNative = false) (reentry : Reentry) (callerPc returnPc : UInt32) :
    Ends (invoke reentry id callerPc returnPc) machine (fun _ after => after.Typed)
      fun _ after => after.Typed := by
  rw [invoke, ends_bind, ends_get]
  dsimp only
  split
  · exact (keeps_raise _ _).ends typed
  · rw [ends_bind]
    refine ((keeps_takeLock _).ends typed).mono (fun taken after typed => ?_) fun _ _ typed => typed
    split
    · exact ends_pure.mpr typed
    · rw [if_neg (by rw [code]; exact Bool.false_ne_true), ends_bind]
      have pushes := keeps_onThrow (keeps_pushFrame id callerPc returnPc)
        fun _ typed => typed.releaseLock (callLock? machine id)
      exact (pushes.ends typed).mono (fun _ _ typed => ends_pure.mpr typed) fun _ _ typed => typed

/-- A native without an implementation throws. -/
theorem ends_callNative_of_lacksNative (typed : machine.Typed) {id : MethodId}
    (lacks : machine.lacksNative id = true) (reentry : Reentry) :
    Ends (callNative reentry id) machine (fun _ after => after.Typed)
      fun _ after => after.Typed := by
  obtain ⟨none, missing, -⟩ := Machine.lacksNative_iff.mp lacks
  rw [callNative, ends_bind, bindNative, ends_bind, ends_get]
  simp only [none, missing]
  exact typed.ends_raise _ _


/-- The frame of a method with code is pushed, and those of initializers. -/
theorem ends_stageFrame (typed : machine.Typed) {id : MethodId}
    (code : (machine.method id).isNative = false) (reentry : Reentry) :
    Ends (Host.stageFrame reentry id) machine (fun _ after => after.Typed)
      fun _ after => after.Typed := by
  have refuses : KeepsTyped
      (do Guest.fault (.monitorOfHeld ((← get).methodLabel id)) : Guest Unit) := by
    mvcgen
  have pushes : KeepsTyped (do let _ ← ensureInitialized id.owner 0 : Guest Unit) := by mvcgen
  rw [Host.stageFrame, ends_bind]
  refine (ends_invoke_of_code typed code reentry 0 0).mono (fun step _ typed => ?_)
    fun _ _ typed => typed
  cases step with
  | blocked => exact refuses.ends typed
  | _ => exact pushes.ends typed

end Guest

namespace Host

variable {machine : Machine}

/-- A call is staged of a method that runs nothing at once. -/
theorem ends_stageCall_of_typed (typed : machine.Typed) {id : MethodId} (defers : machine.Defers id)
    (reentry : Reentry) (complete : Host Value) (arguments : List Value) :
    Ends (stageCall reentry complete id arguments) machine (fun _ after => after.Typed)
      fun _ after => after.Typed := by
  rw [stageCall, ends_bind, ends_get]
  cases native : (machine.method id).isNative with
  | true =>
      have lacks := defers native
      rw [if_pos rfl, stageNative, ends_bind]
      refine Ends.of_ok (initializeClass_of_lacksNative lacks complete) ?_
      have finishes (value : Option Value) : KeepsTyped (do
          if value.isSome then resetExec
          pure value : Host (Option Value)) := by mvcgen
      rw [ends_bind, pushArguments, ends_modify, ends_bind, ends_attempt]
      refine (ends_callNative_of_lacksNative (typed.modifyStack _) lacks reentry).mono
        (fun value after typed => ?_) fun raised after typed => ?_
      all_goals
        exact ((keeps_settle _).bind finishes).ends typed
  | false =>
      rw [if_neg Bool.false_ne_true, ends_bind, pushArguments, ends_modify, ends_bind, ends_attempt]
      have settles (ended : Except Throw Unit) : KeepsTyped (do
          let _ ← settle ended
          pure none : Host (Option Value)) := by mvcgen
      exact (ends_stageFrame (typed.modifyStack _) native reentry).mono
        (fun _ _ => (settles _).ends) fun _ _ => (settles _).ends

theorem ends_enterMethod_of_typed (typed : machine.Typed) {id : MethodId}
    (defers : machine.Defers id) (reentry : Reentry) (complete : Host Value) (arguments : List Value) :
    Ends (enterMethod reentry complete id arguments) machine (fun _ after => after.Typed)
      fun _ after => after.Typed := by
  rw [enterMethod, ends_bind, ends_get]
  split
  · exact ends_throw.mpr typed
  · split
    · exact ends_throw.mpr typed
    · rw [ends_bind, resetExec, ends_modify, ends_bind, ends_modify, ends_bind, ends_catching]
      have staged := ends_stageCall_of_typed ((typed.modifyExec Execution.reset).pinAll arguments)
        defers reentry complete arguments
      refine staged.mono (fun value _ typed => ?_) fun error _ typed => ?_
      · rw [ends_bind, ends_modify]
        exact ends_pure.mpr (typed.unpinAll arguments)
      · rw [ends_bind, ends_modify]
        exact ends_throw.mpr (typed.unpinAll arguments)

end Host

namespace Reentry

/-- The machinery that stages methods with code, and runs nothing. -/
def staging (reentry : Reentry) : Reentry :=
  { enter := reentry.interpreting.enter, complete := throw .exhausted }

theorem keeps_enter_interpreting (fuel depth : Nat) (id : MethodId) (arguments : List Value) :
    Machine.KeepsTyped ((ofDepth fuel depth).interpreting.enter id arguments) := by
  refine keeps_iff.mpr fun machine typed => ?_
  by_cases refuses : (machine.exec.isIdle && (machine.method id).isNative &&
      !machine.lacksNative id) = true
  · exact Ends.of_error (if_pos refuses) typed
  · have same : (ofDepth fuel depth).interpreting.enter id arguments machine =
        (ofDepth fuel depth).enter id arguments machine := if_neg refuses
    rw [ends_congr same]
    cases depth with
    | zero => exact ends_throw.mpr typed
    | succ depth =>
        rcases Option.eq_none_or_eq_some machine.exec.method with idle | ⟨current, busy⟩
        · refine Host.ends_enterMethod_of_typed typed (fun native => ?_) _ _ arguments
          simpa [Execution.isIdle_of_host idle, native] using refuses
        · obtain ⟨error, refused⟩ := Host.enterMethod_of_busy busy (ofDepth fuel depth)
            (Host.runToCompletion (ofDepth fuel depth) fuel) arguments
          exact Ends.of_error refused typed

theorem keeps_staging (bounds : Bounds) : bounds.reentry.staging.KeepsTyped where
  enter := keeps_enter_interpreting bounds.slices bounds.nesting
  complete := keeps_iff.mpr fun _ typed => ends_throw.mpr typed

theorem paces_interpreting {reentry : Reentry} (paces : reentry.Paces) :
    reentry.interpreting.Paces where
  enter id arguments := by
    intro machine
    by_cases refuses : (machine.exec.isIdle && (machine.method id).isNative &&
        !machine.lacksNative id) = true
    · exact Moves.of_error (if_pos refuses) .refl
    · have same : reentry.interpreting.enter id arguments machine =
          reentry.enter id arguments machine := if_neg refuses
      rw [Moves, ends_congr same]
      exact paces.enter id arguments machine
  complete := paces.complete

theorem paces_staging {reentry : Reentry} (paces : reentry.Paces) : reentry.staging.Paces :=
  ⟨(paces_interpreting paces).enter, .throw _⟩

end Reentry

/-! ## Natives -/

variable {machine : Machine}

namespace Machine

theorem WellTyped.releaseLock (well : machine.WellTyped) (lock : Option Lock) :
    (Guest.releaseLock lock machine).WellTyped :=
  ⟨(shapes_releaseLock lock machine).shapely well.shapely, well.typed.releaseLock lock⟩

end Machine

section

variable {reentry : Reentry} (keeps : reentry.KeepsTyped) (paces : reentry.Paces)

include keeps

/-- Natives of the machine's own that copy no elements. -/
theorem Builtin.keeps_run {builtin : Builtin} (clones : builtin ≠ .object .clone)
    (copies : builtin ≠ .system .arraycopy) (arguments : NativeArgs) :
    KeepsTyped (builtin.run reentry arguments) := by
  cases builtin with
  | object native =>
      exact ObjectNative.keeps_run (fun same => clones (congrArg Builtin.object same)) arguments
  | system native =>
      exact SystemNative.keeps_run (fun same => copies (congrArg Builtin.system same)) arguments
  | string native => exact native.keeps_run arguments
  | cls native => exact native.keeps_run arguments
  | thread native => exact ThreadNative.keeps_run keeps native arguments
  | printStream native => exact native.keeps_run arguments
  | math | float | double => exact .pure _

include paces

theorem Builtin.obeys_run (well : machine.WellTyped) (builtin : Builtin) (arguments : NativeArgs)
    (reached : machine.ReachesCloned (some (.builtin builtin, arguments))) :
    Obeys (builtin.run reentry arguments) machine := by
  refine well.obeys (builtin.paces_run paces arguments) ?_
  by_cases clones : builtin = .object .clone
  · subst clones
    rw [Builtin.run, ObjectNative.run, ends_bind, nonNull.eq_def]
    cases received : arguments.receiver with
    | none => exact well.typed.ends_raise .nullPointerException _
    | some receiver =>
        dsimp only
        rw [ends_pure, ends_bind]
        have kept := reached arguments receiver rfl received
        exact (well.typed.ends_cloneObject fun _ _ _ _ => kept).mono
          (fun _ _ typed => ends_pure.mpr typed) fun _ _ typed => typed
  · by_cases copies : builtin = .system .arraycopy
    · subst copies
      rw [Builtin.run, SystemNative.run, ends_bind]
      exact (SystemNative.ends_copy well arguments).mono
        (fun _ _ typed => ends_pure.mpr typed) fun _ _ typed => typed
    · exact (Builtin.keeps_run keeps clones copies arguments).ends well.typed

theorem Native.obeys_run (well : machine.WellTyped) (native : Native) (arguments : NativeArgs)
    (reached : machine.ReachesCloned (some (native, arguments))) :
    Obeys (native.run reentry arguments) machine := by
  cases native with
  | builtin own => exact own.obeys_run keeps paces well arguments reached
  | host action =>
      exact well.ends ((action arguments).paces_run paces) (HostAction.keeps_run keeps _)

/-! ## Calls -/

namespace Guest

theorem obeys_callNative (well : machine.WellTyped) {id : MethodId}
    (foreseen : Foresees (boundNative id) machine) : Obeys (callNative reentry id) machine := by
  rw [Foresees, boundNative, ends_bind] at foreseen
  rw [Obeys, callNative, ends_bind]
  have binds := well.ends (paces_bindNative id) (keeps_bindNative id)
  refine (binds.and foreseen).mono (fun native bound both => ?_) fun _ _ both => both.1
  obtain ⟨well, foreseen⟩ := both
  rw [ends_bind, ends_get] at foreseen ⊢
  dsimp only at foreseen ⊢
  split at foreseen
  next empty =>
      rw [if_pos empty]
      exact well.ends (paces_fault _) (keeps_fault _)
  next full =>
      rw [if_neg full, ends_bind]
      rw [ends_pure] at foreseen
      refine (native.obeys_run keeps paces well _ foreseen).mono (fun value after well => ?_)
        fun _ _ well => well
      exact well.ends ((paces_onStack _).bind fun _ => .pure _)
        ((keeps_onStack _).bind fun _ => .pure _)

theorem obeys_invoke (well : machine.WellTyped) {id : MethodId}
    (foreseen : Foresees (nativeOf id) machine) (callerPc returnPc : UInt32) :
    Obeys (invoke reentry id callerPc returnPc) machine := by
  rw [Foresees, nativeOf, ends_bind, ends_get] at foreseen
  rw [Obeys, invoke, ends_bind, ends_get]
  dsimp only at foreseen ⊢
  split at foreseen
  next abstract =>
      rw [if_pos abstract]
      exact well.ends (paces_raise _ _) (keeps_raise _ _)
  next concrete =>
      rw [if_neg concrete, ends_bind]
      rw [ends_bind] at foreseen
      have takes := well.ends (paces_takeLock (callLock? machine id)) (keeps_takeLock _)
      refine (takes.and foreseen).mono (fun taken locked both => ?_) fun _ _ both => both.1
      obtain ⟨well, foreseen⟩ := both
      split at foreseen
      next refused =>
          rw [if_pos refused]
          exact ends_pure.mpr well
      next entered =>
          rw [if_neg entered]
          split at foreseen
          next native =>
              rw [if_pos native, ends_bind, ends_onThrow]
              refine (obeys_callNative keeps paces well foreseen).mono (fun value after well => ?_)
                fun _ _ well => well.releaseLock _
              rw [ends_bind, ends_modify]
              have released := well.releaseLock (callLock? machine id)
              have moves : Shapes (releaseLock (callLock? machine id) after)
                  ((releaseLock (callLock? machine id) after).modifyExec fun exec =>
                    { exec with stack := exec.stack.pushValue value, pc := returnPc }) :=
                shapes_modifyExec fun _ => ⟨rfl, rfl, rfl⟩
              exact ends_pure.mpr ⟨moves.shapely released.shapely, released.typed.modifyExec _⟩
          next code =>
              rw [if_neg code]
              have pushes := (paces_onThrow (paces_pushFrame trivial id callerPc returnPc)
                (shapes_releaseLock (callLock? machine id))).bind fun _ => .pure Step.next
              have keeps := (keeps_onThrow (keeps_pushFrame id callerPc returnPc)
                fun _ typed => typed.releaseLock (callLock? machine id)).bind
                  fun _ => .pure Step.next
              exact well.ends pushes keeps

theorem obeys_invokeInstance (well : machine.WellTyped) {mode : CallMode} {id : MethodId}
    {index : UInt16} {pc : UInt32} (next : UInt32)
    (foreseen : Foresees (nativeIn id pc (.invoke mode index)) machine) :
    Obeys (invokeInstance reentry mode id.owner index pc next) machine := by
  rw [Foresees, nativeIn, ends_bind] at foreseen
  rw [Obeys, invokeInstance, ends_bind]
  have resolves := well.ends (paces_resolveMethod id.owner index) (keeps_resolveMethod _ _)
  refine (resolves.and foreseen).mono (fun resolved found both => ?_) fun _ _ both => both.1
  obtain ⟨well, foreseen⟩ := both
  rw [ends_bind, ends_get] at foreseen ⊢
  dsimp only at foreseen ⊢
  split at foreseen
  next static =>
      rw [if_pos static]
      exact well.ends (paces_mismatch _) (keeps_mismatch _)
  next isInstance =>
      rw [if_neg isInstance]
      cases here : found.exec.stack.peekRef (resolved.argSlots.toNat - 1) with
      | none => exact well.ends (paces_raiseNull _) (keeps_raiseNull _)
      | some receiver =>
          rw [here] at foreseen
          dsimp only at foreseen ⊢
          rw [ends_bind] at foreseen ⊢
          have selects := well.ends (paces_selectTarget mode receiver resolved.method)
            (keeps_selectTarget _ _ _)
          exact (selects.and foreseen).mono
            (fun target _ both => obeys_invoke keeps paces both.1 both.2 pc next)
            fun _ _ both => both.1

theorem obeys_invokeStatic (well : machine.WellTyped) {id : MethodId} {index : UInt16}
    {pc : UInt32} (next : UInt32)
    (foreseen : Foresees (nativeIn id pc (.invokeStatic index)) machine) :
    Obeys (invokeStatic reentry id.owner index pc next) machine := by
  rw [Foresees, nativeIn, ends_bind] at foreseen
  rw [Obeys, invokeStatic, ends_bind]
  have resolves := well.ends (paces_resolveMethod id.owner index) (keeps_resolveMethod _ _)
  refine (resolves.and foreseen).mono (fun resolved found both => ?_) fun _ _ both => both.1
  obtain ⟨well, foreseen⟩ := both
  split at foreseen
  next isInstance =>
      rw [if_pos isInstance]
      exact well.ends (PacesIn.get.bind fun _ => paces_mismatch _) (by mvcgen)
  next static =>
      rw [if_neg static, ends_bind]
      rw [ends_bind] at foreseen
      have initializes := well.ends (paces_ensureInitialized trivial resolved.method.owner pc)
        (keeps_ensureInitialized _ _)
      refine (initializes.and foreseen).mono (fun pushed ready both => ?_) fun _ _ both => both.1
      obtain ⟨well, foreseen⟩ := both
      split at foreseen
      next waits =>
          rw [if_pos waits]
          exact ends_pure.mpr well
      next starts =>
          rw [if_neg starts]
          exact obeys_invoke keeps paces well foreseen pc next

/-! ## Instructions -/

omit paces keeps in
/-- Instructions that neither call nor store to an array. -/
theorem keeps_execute_of_plain {instr : Instr} (calls : ∀ mode index, instr ≠ .invoke mode index)
    (calls' : ∀ index, instr ≠ .invokeStatic index) (stores : ∀ kind, instr ≠ .arrayStore kind)
    (id : MethodId) (code : Array UInt8) (pc next : UInt32) :
    KeepsTyped (execute reentry id code pc next instr) := by
  cases instr with
  | invoke mode index => exact (calls mode index rfl).elim
  | invokeStatic index => exact (calls' index rfl).elim
  | arrayStore kind => exact (stores kind rfl).elim
  | _ =>
      clear calls calls' stores
      mvcgen [execute]

theorem obeys_execute (well : machine.WellTyped) (id : MethodId) (code : Array UInt8)
    {pc : UInt32} (next : UInt32) (instr : Instr)
    (foreseen : Foresees (nativeIn id pc instr) machine) :
    Obeys (execute reentry id code pc next instr) machine := by
  cases instr with
  | invoke mode index => exact obeys_invokeInstance keeps paces well next foreseen
  | invokeStatic index => exact obeys_invokeStatic keeps paces well next foreseen
  | arrayStore kind =>
      refine well.obeys (paces_execute paces _ _ _ _ _) ?_
      rw [execute, ends_bind]
      exact (well.ends_storeElement kind).mono (fun _ _ => (keeps_proceed next).ends)
        fun _ _ typed => typed
  | _ =>
      refine well.ends (paces_execute paces _ _ _ _ _) (keeps_execute_of_plain ?_ ?_ ?_ _ _ _ _)
      all_goals
        intros
        rintro ⟨⟩

theorem obeys_executeByte (well : machine.WellTyped) (id : MethodId) (code : Array UInt8)
    (pc : UInt32) (byte : UInt8)
    (foreseen : Foresees (askedAt none nativeIn id code pc byte) machine) :
    Obeys (executeByte reentry id code pc byte) machine := by
  rw [executeByte.eq_def]
  cases known : Opcode.ofByte byte with
  | none => exact well.ends (paces_ofDecodeFault _ _) (keeps_ofDecodeFault _ _)
  | some opcode =>
      rw [askedAt, known] at foreseen
      dsimp only at foreseen ⊢
      rw [Foresees, ends_bind] at foreseen
      rw [Obeys, ends_bind]
      have decodes := well.ends (paces_ofDecode id (Instr.decode code pc opcode))
        (keeps_ofDecode _ _)
      exact (decodes.and foreseen).mono
        (fun decoded _ both => obeys_execute keeps paces both.1 id code decoded.2 decoded.1 both.2)
        fun _ _ both => both.1

theorem obeys_step (well : machine.WellTyped) (foreseen : Foresees nextNative machine) :
    Obeys (step reentry) machine := by
  rw [Foresees, nextNative, askedNext, ends_bind, ends_get] at foreseen
  rw [Obeys, step, ends_bind, ends_get]
  cases busy : machine.exec.method with
  | none => exact well.ends (paces_fault _) (keeps_fault _)
  | some id =>
      rw [busy] at foreseen
      dsimp only at foreseen ⊢
      rw [ends_bind] at foreseen ⊢
      have reads := well.ends (paces_ofDecode id (Bytecode.byte
        ((machine.method id).code.elim #[] (·.bytecode)) machine.exec.pc)) (keeps_ofDecode _ _)
      refine (reads.and foreseen).mono (fun byte _ both => ?_) fun _ _ both => both.1
      obtain ⟨well, foreseen⟩ := both
      rw [ends_bind] at foreseen ⊢
      have fetches := well.ends (paces_fetch id machine.exec.pc byte) (keeps_fetch _ _ _)
      refine (fetches.and foreseen).mono (fun fetched _ both => ?_) fun _ _ both => both.1
      obtain ⟨well, foreseen⟩ := both
      cases fetched with
      | none => exact ends_pure.mpr well
      | some byte => exact obeys_executeByte keeps paces well id _ _ byte foreseen

end Guest

namespace Host

/-- An instruction keeps arrays suited to their elements, whatever comes of it. -/
theorem obeys_runStep (well : machine.WellTyped) (reached : machine.ClonesReached) :
    Obeys (runStep reentry) machine := by
  have clears : Shapes machine (machine.modifyHeap Heap.clearPending) :=
    shapes_modifyHeap (.clearPending _)
  have cleared : (machine.modifyHeap Heap.clearPending).WellTyped :=
    ⟨clears.shapely well.shapely, well.typed.of_objects rfl rfl rfl ⟨rfl, rfl, rfl⟩⟩
  rw [Obeys, runStep, ends_bind, ends_modify, ends_bind, ends_get]
  split
  next ref pending =>
      have moves : Shapes (machine.modifyHeap Heap.clearPending)
          ((machine.modifyHeap Heap.clearPending).modifyExec fun exec =>
            { exec with pendingException := none }) := shapes_modifyExec fun _ => ⟨rfl, rfl, rfl⟩
      have moved : WellTyped _ := ⟨moves.shapely cleared.shapely, cleared.typed.modifyExec _⟩
      rw [ends_bind, ends_modify]
      exact moved.ends ((paces_unwind ref).bind fun _ => .pure _)
        ((keeps_unwind ref).bind fun _ => .pure _)
  next none =>
      rw [ends_bind, ends_attempt]
      have follows (ended : Except Throw Step) (after : Machine) (well : after.WellTyped) :
          Obeys (afterStep ended) after := well.ends (paces_afterStep ended) (keeps_afterStep ended)
      exact (Guest.obeys_step keeps paces cleared (reached none)).mono
        (fun _ _ => follows _ _) fun _ _ => follows _ _

end Host

end

end Jvm
