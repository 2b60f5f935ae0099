import Jvm.Machine.Stage
import Jvm.Proofs.ClassFile.Descriptors
import Jvm.Proofs.Machine.Calls
import Jvm.Proofs.Machine.Frames

/-!
# Staging calls

A call that is staged on an idle execution leaves frames that stand, whatever
becomes of it: the frame of the method, those of initializers above it, or none
at all. What natives may ask of the machinery around them is stated of methods
with code; a native method would run at once, and with it all that it calls.
-/

namespace Jvm

namespace Machine

/-- Whether the frames of the running execution stand if they stood before, and
initialization has stayed in order if all calls were plain. -/
structure Settles (plain : Prop) (before after : Machine) : Prop extends Advances before after where
  frames : after.registry.Fit → ∀ saved, before.exec.Stands before.registry.toClassTable saved →
    ∃ left, after.exec.Stands after.registry.toClassTable left
  governs : plain → Governed Progresses before after

section

variable {plain : Prop} {first second third : Machine}

theorem Deepens.settles (deepens : first.Deepens plain second) : first.Settles plain second where
  toAdvances := deepens.toAdvances
  frames fit saved stands := by
    obtain ⟨deeper, stands, -⟩ := deepens.frames fit saved stands
    exact ⟨deeper, stands⟩
  governs := deepens.governs

theorem Shrinks.settles (shrinks : first.Shrinks second) : first.Settles plain second where
  toAdvances := shrinks.toAdvances
  frames fit saved stands := by
    obtain ⟨left, stands, -⟩ := shrinks.frames fit saved stands
    exact ⟨left, stands⟩
  governs _ := shrinks.governs

theorem Calm.settles (calm : first.Calm second) : first.Settles plain second := calm.deepens.settles

theorem Settles.trans (left : first.Settles plain second) (right : second.Settles plain third) :
    first.Settles plain third where
  toAdvances := left.toAdvances.trans right.toAdvances
  frames fit saved stands := by
    have fitBetween := fit_of_growsTo left.closed right.closed right.grows fit
    obtain ⟨middle, stands⟩ := left.frames fitBetween saved stands
    exact right.frames fit middle stands
  governs calls := (left.governs calls).trans (right.governs calls) left.closed
    (fit_of_growsTo left.closed right.closed right.grows) left.grows left.frames

end

instance {plain : Prop} : Trans (Settles plain) (Settles plain) (Settles plain) := ⟨Settles.trans⟩

/-- A linked method takes as many arguments as before. -/
theorem Stays.frameArgSlots {before after : Machine} (stays : before.Stays after) {id : MethodId}
    (linked : before.registry.HasMethod id) :
    (after.method id).frameArgSlots = (before.method id).frameArgSlots := by
  have same := congrArg Method.frameArgSlots (stays.grows.bodiless_method linked.1)
  rwa [ClassTable.frameArgSlots_bodiless, ClassTable.frameArgSlots_bodiless] at same

/-- A linked method has the name that it had. -/
theorem Advances.isInitializer {before after : Machine} (advances : before.Advances after)
    {id : MethodId} (linked : before.registry.HasMethod id) :
    (after.method id).isInitializer = (before.method id).isInitializer :=
  congrArg (· == "<clinit>") (advances.grows.name_method linked.1)

/-- What an execution offers is not used up while its frames stay. -/
theorem Stays.offers {before after : Machine} (stays : before.Stays after) {count : Nat}
    (offers : before.exec.Offers count) : after.exec.Offers count := by
  intro id busy
  rw [stays.exec.startSp, stays.exec.stack]
  exact offers id (stays.exec.method.symm.trans busy)

/-- Whether a native method has no implementation and its class is in use already: a
call of it throws, and that is all. -/
def lacksNative (machine : Machine) (id : MethodId) : Bool :=
  let method := machine.method id
  let cls := machine.cls id.owner
  method.native.isNone && (machine.natives.find? cls.name method.name method.descriptor).isNone &&
    (cls.initState == .initialized || cls.initState == .initializing)

theorem lacksNative_iff {machine : Machine} {id : MethodId} :
    machine.lacksNative id = true ↔ (machine.method id).native = none ∧
      machine.natives.find? (machine.cls id.owner).name (machine.method id).name
        (machine.method id).descriptor = none ∧
      ((machine.cls id.owner).initState = .initialized ∨
        (machine.cls id.owner).initState = .initializing) := by
  simp only [lacksNative, Bool.and_eq_true, Bool.or_eq_true, Option.isNone_iff_eq_none,
    beq_iff_eq, and_assoc]

end Machine

namespace Guest

open Machine

variable {plain : Prop} {machine : Machine} (closed : machine.Closed)

include closed

theorem calm_releaseLock (lock : Option Lock) : machine.Calm (releaseLock lock machine) := by
  cases lock with
  | none => exact closed.calm_refl
  | some lock => exact closed.calm_exitLock lock

theorem calm_takeLock (lock : Option Lock) :
    Moves Calm (takeLock lock) machine fun _ _ => True := by
  cases lock with
  | none => exact Moves.pure closed.calm_refl trivial
  | some lock => exact Moves.modifyGet (closed.calm_enterLock lock) trivial

/-- A native without an implementation throws. -/
theorem calm_bindNative_of_lacksNative {id : MethodId} (lacks : machine.lacksNative id = true) :
    Moves Calm (bindNative id) machine fun _ _ => False := by
  obtain ⟨none, missing, -⟩ := Machine.lacksNative_iff.mp lacks
  refine Moves.get_bind ?_
  simp only [none, missing]
  exact calm_raise closed _ _

theorem calm_callNative_of_lacksNative {id : MethodId} (lacks : machine.lacksNative id = true)
    (reentry : Reentry) :
    Moves Calm (callNative reentry id) machine fun _ _ => True :=
  Moves.never_bind (calm_bindNative_of_lacksNative closed lacks)

/-- A call of a method with code whose arguments are operands of the current frame. -/
theorem deepens_invoke {id : MethodId} (linked : machine.registry.HasMethod id)
    (interpreted : (machine.method id).isNative = false)
    (offers : machine.exec.Offers (machine.method id).frameArgSlots.toNat)
    (calls : plain → (machine.method id).isInitializer = false)
    (reentry : Reentry) (callerPc returnPc : UInt32) :
    Moves (Deepens plain) (invoke reentry id callerPc returnPc) machine fun _ _ => True := by
  refine Moves.get_bind ?_
  dsimp only
  split
  · exact (calm_raise closed _ _).calm_deepens
  · refine (calm_takeLock closed _).calm_bind ?_
    intro taken after calm _
    split
    · exact Moves.pure calm.closed.calm_refl.deepens trivial
    · rw [interpreted, if_neg Bool.false_ne_true]
      have pushes := deepens_pushFrame calm.closed (calm.grows.hasMethod linked) (by
        intro _ _ _
        rw [calm.frameArgSlots linked]
        exact calm.offers offers)
        (fun ordinary => (calm.advances.isInitializer linked).trans (calls ordinary))
        callerPc returnPc
      refine (moves_onThrow pushes ?_).bind ?_
      · exact fun _ deepens => deepens.trans (calm_releaseLock deepens.closed _).deepens
      · exact fun _ _ deepens _ => Moves.pure deepens.closed.calm_refl.deepens trivial

/-- The frames of a staged call: that of the method and those of initializers. -/
theorem deepens_stageFrame {id : MethodId} (linked : machine.registry.HasMethod id)
    (interpreted : (machine.method id).isNative = false) (idle : machine.exec.method = none)
    (calls : plain → (machine.method id).isInitializer = false) (reentry : Reentry) :
    Moves (Deepens plain) (Host.stageFrame reentry id) machine fun _ _ => True := by
  have offers : machine.exec.Offers (machine.method id).frameArgSlots.toNat := by
    intro caller busy
    cases idle.symm.trans busy
  refine (deepens_invoke closed linked interpreted offers calls reentry 0 0).bind ?_
  intro step after deepens _
  have known := deepens.grows.has linked.1
  have initializes : Moves (Deepens plain) (do
      let _ ← ensureInitialized id.owner 0 : Guest Unit) after fun _ _ => True := by
    refine (deepens_ensureInitialized deepens.closed known 0).bind ?_
    exact fun _ _ initialized _ => Moves.pure initialized.closed.calm_refl.deepens trivial
  cases step with
  | blocked =>
      exact Moves.get_bind ((calm_fault deepens.closed _).calm_deepens)
  | _ => exact initializes

end Guest

/-! ## Staging on behalf of the host -/

namespace Host

open Machine

variable {plain : Prop} {α : Type} {machine : Machine}

theorem ends_attempt {step : Guest α} {returned : Except Throw α → Machine → Prop}
    {thrown : Error → Machine → Prop} :
    Ends (attempt step) machine returned thrown ↔
      Ends step machine (fun value => returned (.ok value)) fun raised => returned (.error raised) := by
  simp only [Ends, attempt]
  cases step machine <;> rfl

theorem ends_catching {step : Host α} {returned : Except Error α → Machine → Prop}
    {thrown : Error → Machine → Prop} :
    Ends (catching step) machine returned thrown ↔
      Ends step machine (fun value => returned (.ok value)) fun error => returned (.error error) := by
  simp only [Ends, catching]
  cases step machine <;> rfl

theorem moves_attempt {related : Machine → Machine → Prop} {step : Guest α}
    {returned : α → Machine → Prop} (moves : Moves related step machine returned) :
    Moves related (attempt step) machine fun _ _ => True := by
  rw [Moves, ends_attempt]
  exact Ends.mono moves (fun _ _ ended => ⟨ended.1, trivial⟩) fun _ _ ended => ⟨ended, trivial⟩

theorem moves_catching {related : Machine → Machine → Prop} {step : Host α}
    {returned : α → Machine → Prop} (moves : Moves related step machine returned) :
    Moves related (catching step) machine fun _ _ => True := by
  rw [Moves, ends_catching]
  exact Ends.mono moves (fun _ _ ended => ⟨ended.1, trivial⟩) fun _ _ ended => ⟨ended, trivial⟩

/-- A busy execution refuses a call. -/
theorem enterMethod_of_busy {id current : MethodId} (busy : machine.exec.method = some current)
    (reentry : Reentry) (complete : Host Value) (arguments : List Value) :
    ∃ error, enterMethod reentry complete id arguments machine = .error error machine := by
  have notIdle : (!machine.exec.isIdle) = true := by
    rw [Execution.isIdle_of_method busy]
    rfl
  refine ⟨.invalidState (.alreadyRunning machine.exec.id), ?_⟩
  simp only [enterMethod, bind, EStateM.bind, run_get, if_pos notIdle]
  rfl

/-- A class that is in use is not initialized again. -/
theorem initializeClass_of_lacksNative {id : MethodId} (lacks : machine.lacksNative id = true)
    (complete : Host Value) : initializeClass complete id.owner machine = .ok ⟨⟩ machine := by
  obtain ⟨-, -, inUse⟩ := Machine.lacksNative_iff.mp lacks
  have nothing : Guest.ensureInitialized id.owner 0 machine = .ok false machine := by
    rcases inUse with state | state
    all_goals
      simp only [Guest.ensureInitialized, bind, EStateM.bind, run_get, state]
      rfl
  simp only [initializeClass, attempt, nothing, bind, EStateM.bind]
  rfl

variable (closed : machine.Closed)

include closed

theorem calm_pinAll (values : List Value) : machine.Calm (pinAll values machine) := by
  have same : ∀ (refs : List Ref) (heap : Heap), (refs.foldl Heap.pin heap).objects =
      heap.objects := by
    intro refs
    induction refs with
    | nil => exact fun heap => rfl
    | cons ref refs ih => exact fun heap => ih (heap.pin ref)
  exact closed.calm_modifyHeap (closed.heap.congr (same _ _))

theorem calm_unpinAll (values : List Value) : machine.Calm (unpinAll values machine) := by
  have same : ∀ (refs : List Ref) (heap : Heap), (refs.foldl Heap.unpin heap).objects =
      heap.objects := by
    intro refs
    induction refs with
    | nil => exact fun heap => rfl
    | cons ref refs ih => exact fun heap => ih (heap.unpin ref)
  exact closed.calm_modifyHeap (closed.heap.congr (same _ _))

theorem settles_settle (ended : Except Throw α) :
    Moves (Settles plain) (settle ended) machine fun _ _ => True := by
  cases ended with
  | ok value => exact Moves.pure closed.calm_refl.settles trivial
  | error thrown =>
      cases thrown with
      | exception ref =>
          have unwinds : Moves (Settles plain) (unwind ref) machine fun _ _ => True :=
            (shrinks_unwind closed ref).of_related fun _ shrinks => shrinks.settles
          refine unwinds.bind ?_
          exact fun _ _ settles _ => Moves.pure settles.closed.calm_refl.settles trivial
      | fatal error =>
          have resets : machine.Settles plain _ := (shrinks_reset closed).settles
          exact Moves.modify_bind resets (Moves.throw resets.closed.calm_refl.settles)

/-- Arguments are pushed on a stack without frames. -/
theorem settles_pushArguments (idle : machine.exec.method = none) (arguments : List Value) :
    Moves (Settles plain) (pushArguments arguments) machine fun _ after =>
      after = machine.modifyStack fun stack => arguments.foldl Stack.pushValue stack := by
  have limit : ∀ stack : Stack, (arguments.foldl Stack.pushValue stack).limit = stack.limit := by
    induction arguments with
    | nil => exact fun stack => rfl
    | cons value values ih => exact fun stack => (ih _).trans (stack.limit_pushValue value)
  have pushes : machine.Shrinks (machine.modifyStack fun stack =>
      arguments.foldl Stack.pushValue stack) := by
    refine shrinks_of_keeps closed rfl rfl rfl (limit _) ?_
    intro id busy _
    cases idle.symm.trans busy
  exact Moves.modify pushes.settles rfl

/-- A native without an implementation is not run. -/
theorem settles_stageNative {id : MethodId} (lacks : machine.lacksNative id = true)
    (idle : machine.exec.method = none) (reentry : Reentry) (complete : Host Value)
    (arguments : List Value) :
    Moves (Settles plain) (stageNative reentry complete id arguments) machine fun _ _ => True := by
  have initializes : Moves (Settles plain) (initializeClass complete id.owner) machine
      fun _ after => machine = after :=
    Moves.of_ok (initializeClass_of_lacksNative lacks complete) closed.calm_refl.settles rfl
  refine initializes.bind ?_
  rintro - _ - rfl
  refine (settles_pushArguments closed idle arguments).bind ?_
  rintro - _ pushed rfl
  have calls : Moves Calm (Guest.callNative reentry id)
      (machine.modifyStack fun stack => arguments.foldl Stack.pushValue stack) fun _ _ => True :=
    Guest.calm_callNative_of_lacksNative pushed.closed lacks reentry
  refine (moves_attempt (calls.of_related fun _ calm => calm.settles)).bind ?_
  intro ended last called _
  refine (settles_settle called.closed ended).bind ?_
  intro value after settled _
  have resets : after.Settles plain _ := (shrinks_reset settled.closed).settles
  split
  · exact Moves.modify_bind resets (Moves.pure resets.closed.calm_refl.settles trivial)
  · exact Moves.pure settled.closed.calm_refl.settles trivial

theorem settles_stageCall {id : MethodId} (linked : machine.registry.HasMethod id)
    (harmless : (machine.method id).isNative = true → machine.lacksNative id = true)
    (idle : machine.exec.method = none)
    (calls : plain → (machine.method id).isInitializer = false) (reentry : Reentry)
    (complete : Host Value) (arguments : List Value) :
    Moves (Settles plain) (stageCall reentry complete id arguments) machine fun _ _ => True := by
  refine Moves.get_bind ?_
  cases native : (machine.method id).isNative with
  | true =>
      rw [if_pos rfl]
      exact settles_stageNative closed (harmless native) idle reentry complete arguments
  | false =>
      rw [if_neg Bool.false_ne_true]
      refine (settles_pushArguments closed idle arguments).bind ?_
      rintro - _ pushed rfl
      have stages : Moves (Deepens plain) (stageFrame reentry id)
          (machine.modifyStack fun stack => arguments.foldl Stack.pushValue stack)
          fun _ _ => True :=
        Guest.deepens_stageFrame pushed.closed (pushed.grows.hasMethod linked) native idle calls
          reentry
      refine (moves_attempt (stages.of_related fun _ deepens => deepens.settles)).bind ?_
      intro ended last staged _
      refine (settles_settle staged.closed ended).bind ?_
      exact fun _ _ settled _ => Moves.pure settled.closed.calm_refl.settles trivial

/-- Staging a call on whatever execution is running. -/
theorem settles_enterMethod {id : MethodId} (linked : machine.registry.HasMethod id)
    (harmless : (machine.method id).isNative = true → machine.lacksNative id = true)
    (reentry : Reentry) (complete : Host Value) (arguments : List Value)
    (calls : plain → accepts (machine.method id) arguments = true →
      (machine.method id).isInitializer = false) :
    Moves (Settles plain) (enterMethod reentry complete id arguments) machine fun _ _ => True := by
  refine Moves.get_bind ?_
  split
  · exact Moves.throw closed.calm_refl.settles
  · split
    · exact Moves.throw closed.calm_refl.settles
    next accepted =>
      rw [Bool.not_eq_true, Bool.not_eq_false'] at accepted
      have resets : machine.Settles plain _ := (shrinks_reset closed).settles
      refine Moves.modify_bind resets ?_
      have pins := calm_pinAll resets.closed arguments
      refine Moves.modify_bind pins.settles ?_
      have stages : Moves (Settles plain) (stageCall reentry complete id arguments) _
          fun _ _ => True :=
        settles_stageCall pins.closed linked harmless rfl (fun ordinary => calls ordinary accepted)
          reentry complete arguments
      refine (moves_catching stages).bind ?_
      intro result last staged _
      have unpins := calm_unpinAll staged.closed arguments
      refine Moves.modify_bind unpins.settles ?_
      cases result with
      | ok value => exact Moves.pure unpins.closed.calm_refl.settles trivial
      | error error => exact Moves.throw unpins.closed.calm_refl.settles

end Host

namespace Reentry

open Machine

/-- What natives may ask of the machinery around them: a busy execution refuses a
call, and a call that is staged leaves frames that stand. -/
structure Stages (reentry : Reentry) : Prop where
  busy : ∀ (machine : Machine) (id current : MethodId) (arguments : List Value),
    machine.exec.method = some current →
    ∃ error, reentry.enter id arguments machine = .error error machine
  settles : ∀ (plain : Prop) (machine : Machine) (id : MethodId) (arguments : List Value),
    machine.Closed → machine.registry.HasMethod id →
    (plain → Host.accepts (machine.method id) arguments = true →
      (machine.method id).isInitializer = false) →
    Moves (Settles plain) (reentry.enter id arguments) machine fun _ _ => True

/-- The machinery that calls no native method that does anything. -/
def interpreting (reentry : Reentry) : Reentry :=
  { reentry with
    enter := fun id arguments machine =>
      if machine.exec.isIdle && (machine.method id).isNative && !machine.lacksNative id then
        .error .exhausted machine
      else reentry.enter id arguments machine }

theorem enter_of_busy (fuel depth : Nat) {machine : Machine} {current : MethodId}
    (busy : machine.exec.method = some current) (id : MethodId) (arguments : List Value) :
    ∃ error, (ofDepth fuel depth).enter id arguments machine = .error error machine := by
  cases depth with
  | zero => exact ⟨.exhausted, rfl⟩
  | succ depth => exact Host.enterMethod_of_busy busy _ _ arguments

theorem settles_enter {plain : Prop} (fuel depth : Nat) {machine : Machine} (closed : machine.Closed)
    {id : MethodId} (linked : machine.registry.HasMethod id)
    (harmless : (machine.method id).isNative = true → machine.lacksNative id = true)
    (arguments : List Value)
    (calls : plain → Host.accepts (machine.method id) arguments = true →
      (machine.method id).isInitializer = false) :
    Moves (Settles plain) ((ofDepth fuel depth).enter id arguments) machine fun _ _ => True := by
  cases depth with
  | zero => exact Moves.throw closed.calm_refl.settles
  | succ depth => exact Host.settles_enterMethod closed linked harmless _ _ arguments calls

theorem stages_ofDepth (fuel depth : Nat) : (ofDepth fuel depth).interpreting.Stages where
  busy machine id current arguments busy := by
    have notIdle := Execution.isIdle_of_method busy
    simp only [interpreting, notIdle, Bool.false_and, Bool.false_eq_true, if_false]
    exact enter_of_busy fuel depth busy id arguments
  settles plain machine id arguments closed linked calls := by
    by_cases refuses : (machine.exec.isIdle && (machine.method id).isNative &&
        !machine.lacksNative id) = true
    · exact Moves.of_error (if_pos refuses) closed.calm_refl.settles
    · have same : (ofDepth fuel depth).interpreting.enter id arguments machine =
          (ofDepth fuel depth).enter id arguments machine := if_neg refuses
      rw [Moves, ends_congr same]
      rcases Option.eq_none_or_eq_some machine.exec.method with idle | ⟨current, busy⟩
      · refine settles_enter fuel depth closed linked ?_ arguments calls
        intro native
        simpa [Execution.isIdle_of_host idle, native] using refuses
      · obtain ⟨error, refused⟩ := enter_of_busy fuel depth busy id arguments
        exact Moves.of_error refused closed.calm_refl.settles

end Reentry

end Jvm

/-!
## Slots of arguments

Arguments are pushed one by one, and the slots that a call turns into locals are counted from the
descriptor of its method, in sixteen bits. So the frame of a call starts where its first argument
was pushed just if the arguments take fewer than 65536 slots. Nothing bounds a descriptor so: one
with 32768 parameters of two slots can be written in a class file, and counts as none.
-/

namespace Jvm

/-- Slots of parameters are counted modulo the numbers that sixteen bits hold. -/
theorem MethodType.toNat_slotCount (params : List Kind) :
    (slotCount params).toNat = (params.map Kind.slots).sum % 65536 := by
  have go (params : List Kind) (counted : UInt16) :
      (params.foldl (fun total kind => total + UInt16.ofNat kind.slots) counted).toNat =
        (counted.toNat + (params.map Kind.slots).sum) % 65536 := by
    induction params generalizing counted with
    | nil => exact (Nat.mod_eq_of_lt counted.toNat_lt).symm
    | cons kind params ih =>
        have next : (counted + UInt16.ofNat kind.slots).toNat =
            (counted.toNat + kind.slots) % 65536 := by
          rw [UInt16.toNat_add, UInt16.toNat_ofNat', Nat.add_mod_mod]
        rw [List.foldl_cons, ih, next, List.map_cons, List.sum_cons, Nat.mod_add_mod,
          Nat.add_assoc]
  rw [slotCount, go]
  exact congrArg (· % 65536) (Nat.zero_add _)

namespace Method

variable {owner : ClassId} {info : MethodInfo} {method : Method}

/-- Slots that the arguments of a method take: one each, two for a long or a double, and one for
the receiver. -/
def argumentSlots (method : Method) : Nat :=
  (if method.isStatic then 0 else 1) + (method.params.map Kind.slots).sum

/-- The slots of the arguments of a linked method are counted modulo 65536. -/
theorem toNat_frameArgSlots (linked : link owner info = .ok method) :
    method.frameArgSlots.toNat = method.argumentSlots % 65536 := by
  obtain ⟨type, parsed, built⟩ := Except.bind_eq_ok.mp linked
  cases built
  obtain ⟨-, -, -, counted⟩ := (MethodType.parse_eq_ok_iff _ _).mp parsed
  rw [frameArgSlots, argumentSlots, counted, UInt16.toNat_add,
    MethodType.toNat_slotCount, Nat.mod_add_mod, Nat.add_comm]
  split <;> rfl

end Method

namespace Host

variable {method : Method} {arguments : List Value}

/-- Accepted arguments take the slots that are those of the method's arguments. -/
theorem slots_of_accepts (accepted : accepts method arguments = true) :
    (arguments.map Value.slots).sum = method.argumentSlots := by
  have go (kinds : List Kind) (values : List Value) (length : kinds.length = values.length)
      (fit : ((kinds.zip values).all fun pair => pair.2.fits pair.1) = true) :
      (values.map Value.slots).sum = (kinds.map Kind.slots).sum := by
    induction kinds generalizing values with
    | nil => rw [List.length_eq_zero_iff.mp length.symm]; rfl
    | cons kind kinds ih =>
        cases values with
        | nil => cases length
        | cons value values =>
            rw [List.zip_cons_cons, List.all_cons, Bool.and_eq_true] at fit
            rw [List.map_cons, List.map_cons, List.sum_cons, List.sum_cons,
              Value.slots_eq_of_fits fit.1, ih values (Nat.succ.inj length) fit.2]
  rw [accepts, Bool.and_eq_true, decide_eq_true_eq] at accepted
  rw [go _ _ accepted.1 accepted.2, Method.argumentSlots, List.map_append, List.sum_append]
  split <;> rfl

end Host

namespace Guest

open Host

variable {owner : ClassId} {info : MethodInfo} {machine pushed after : Machine} {id : MethodId}
  {arguments : List Value} {callerPc returnPc : UInt32}

/-- The frame of a call whose arguments were pushed by the host starts where the first of them
was pushed, if they take fewer than 65536 slots, and only then. -/
theorem startSp_pushFrame_iff (linked : Method.link owner info = .ok (machine.method id))
    (accepted : accepts (machine.method id) arguments = true)
    (entered : pushFrame id callerPc returnPc (machine.modifyStack fun stack =>
      arguments.foldl Stack.pushValue stack) = .ok ⟨⟩ after) :
    after.exec.startSp = machine.exec.stack.sp + FrameContext.size - 1 ↔
      (machine.method id).argumentSlots < 65536 := by
  obtain ⟨claimed, -, rfl⟩ := ends_of_ok entered ends_pushFrame
  have count := Method.toNat_frameArgSlots linked
  have pushed := Stack.sp_pushValues machine.exec.stack arguments
  rw [slots_of_accepts accepted] at pushed
  change (machine.method id).frameArgSlots.toNat ≤
    (arguments.foldl Stack.pushValue machine.exec.stack).sp at claimed
  change (arguments.foldl Stack.pushValue machine.exec.stack).sp -
    (machine.method id).frameArgSlots.toNat + FrameContext.size - 1 = _ ↔ _
  rw [count, pushed] at claimed ⊢
  rw [FrameContext.size]
  omega

end Guest

end Jvm
