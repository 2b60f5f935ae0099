import Jvm.Proofs.Machine.Depth
import Jvm.Proofs.Machine.Resolution

/-!
# Entering and leaving frames

Calls and the start of class initialization put frames on the chain, returns and
exceptions take frames off it. Neither ever touches a frame in between.
-/

namespace Jvm

namespace Guest

variable {α : Type} {step : Guest α} {change : Machine → Machine} {machine : Machine}

@[simp] theorem ends_onThrow {returned : α → Machine → Prop} {thrown : Throw → Machine → Prop} :
    Ends (onThrow step change) machine returned thrown ↔
      Ends step machine returned fun raised after => thrown raised (change after) := by
  simp only [Ends, onThrow]
  cases step machine <;> rfl

/-- A step that throws may still change the state on its way. -/
theorem moves_onThrow {related : Machine → Machine → Prop} {returned : α → Machine → Prop}
    (moves : Moves related step machine returned)
    (changes : ∀ after, related machine after → related machine (change after)) :
    Moves related (onThrow step change) machine returned := by
  rw [Moves, ends_onThrow]
  exact Ends.mono moves (fun _ _ ended => ended) fun _ after reached => changes after reached

end Guest

namespace Execution.Stands

variable {exec : Execution} {table : ClassTable} {saved : List SavedFrame}
  (stands : exec.Stands table saved) {id : MethodId} (busy : exec.method = some id)

include stands busy

/-- Leaving a frame leaves those of its callers. -/
theorem methods_leave (resume : FrameContext → UInt32) :
    exec.methods = id :: (exec.leave resume).methods := by
  have chains := stands.chains id busy
  rcases saved with _ | ⟨⟨startSp, context⟩, callers⟩
  · cases chains
  · have left := stands.leave rfl resume
    have caller : (exec.leave resume).method = context.caller := by
      cases chains <;> rfl
    rw [stands.methods_eq, left.methods_eq, busy, caller]
    cases called : context.caller with
    | none => simp only [Option.toList, List.filterMap_cons, called, List.cons_append,
        List.nil_append]
    | some caller => simp only [Option.toList, List.filterMap_cons, called, List.cons_append,
        List.nil_append]

/-- What a frame returns is not among the frames of its callers. -/
theorem methods_resume (value : Value) : exec.methods = id :: (exec.resume value).methods := by
  rw [stands.methods_leave busy (·.returnPc)]
  refine congrArg _ ?_
  cases caller : (exec.leave (·.returnPc)).method with
  | none =>
      have idle : (exec.resume value).method = none := by
        rw [Execution.resume_of_idle caller]
        exact caller
      rw [Execution.methods_of_idle caller, Execution.methods_of_idle idle]
  | some called =>
      have chains := stands.chains id busy
      rcases saved with _ | ⟨⟨startSp, context⟩, callers⟩
      · cases chains
      · have left := stands.leave rfl (·.returnPc)
        have resumed : (exec.resume value).Stands table callers := by
          rw [Execution.resume_of_busy caller]
          refine left.keep rfl rfl (Stack.limit_pushValue _ value) ?_
          exact fun _ _ room => Stack.keeps_pushValue room value
        rw [resumed.methods_eq, left.methods_eq, Execution.resume_of_busy caller]

end Execution.Stands

namespace Machine

variable {plain : Prop} {machine : Machine} (closed : machine.Closed)

include closed

theorem Closed.modifyExec (change : Execution → Execution) :
    (machine.modifyExec change).Closed :=
  ⟨closed.registry, closed.known, closed.heap⟩

/-- Whatever becomes of its stack, the running execution is the only one concerned. -/
theorem advances_modifyExec {change : Execution → Execution}
    (id : (change machine.exec).id = machine.exec.id) :
    machine.Advances (machine.modifyExec change) :=
  ⟨.refl _, closed.modifyExec change, rfl, id, rfl, rfl⟩

omit closed in
/-- Initialization is in order if frames have gone at most. -/
theorem progresses_of_fewer {after : Machine} (closed : machine.Closed)
    (registry : after.registry = machine.registry) (orderly : machine.Orderly)
    (fewer : after.methods.Subperm machine.methods) : machine.Progresses after := by
  rw [Progresses, registry]
  exact orderly.progresses_of_rests closed.registry closed.registry (.refl _) (.refl _) fewer

omit closed in
/-- Executions may come to lie elsewhere, or be gone. -/
theorem methods_subperm {after : Machine}
    (fewer : (after.exec :: after.parked).Subperm (machine.exec :: machine.parked)) :
    after.methods.Subperm machine.methods := by
  obtain ⟨same, perm, sublist⟩ := fewer
  exact ⟨same.flatMap Execution.methods, perm.flatMap_right _, sublist.flatMap _⟩

section

variable {change : Execution → Execution} (id : (change machine.exec).id = machine.exec.id)
  (method : (change machine.exec).method = machine.exec.method)
  (startSp : (change machine.exec).startSp = machine.exec.startSp)
  (limit : (change machine.exec).stack.limit = machine.exec.stack.limit)
  (keeps : ∀ id, machine.exec.method = some id →
    machine.exec.startSp + 1 ≤ machine.exec.stack.sp →
    machine.exec.stack.Keeps (machine.exec.startSp + 1) (change machine.exec).stack)

include id method startSp limit keeps

omit id in
theorem progresses_of_keeps {saved : List SavedFrame}
    (stands : machine.exec.Stands machine.registry.toClassTable saved)
    (orderly : machine.Orderly) : machine.Progresses (machine.modifyExec change) := by
  have stands' := stands.keep method startSp limit keeps
  have same : (machine.modifyExec change).methods = machine.methods :=
    methods_of_stands stands stands' method rfl
  exact progresses_of_fewer closed rfl orderly (same ▸ .refl _)

/-- Work above the start of the current frame leaves the frames alone. -/
theorem deepens_of_keeps : machine.Deepens plain (machine.modifyExec change) where
  toAdvances := advances_modifyExec closed id
  frames _ saved stands :=
    ⟨saved, stands.keep method startSp limit keeps, List.suffix_rfl, stands.agrees_of_keeps keeps⟩
  governs _ _ _ _ stands orderly :=
    progresses_of_keeps closed method startSp limit keeps stands orderly

theorem shrinks_of_keeps : machine.Shrinks (machine.modifyExec change) where
  toAdvances := advances_modifyExec closed id
  frames _ saved stands :=
    ⟨saved, stands.keep method startSp limit keeps, List.suffix_rfl, stands.agrees_of_keeps keeps⟩
  governs _ _ _ stands orderly :=
    progresses_of_keeps closed method startSp limit keeps stands orderly

end

theorem shrinks_pushValue (value : Value) :
    machine.Shrinks (machine.modifyStack fun stack => stack.pushValue value) := by
  refine shrinks_of_keeps closed rfl rfl rfl ?_ ?_
  · exact Stack.limit_pushValue _ value
  · exact fun _ _ room => Stack.keeps_pushValue room value

/-- An execution that gives up all its frames. -/
theorem shrinks_of_idle {change : Execution → Execution}
    (id : (change machine.exec).id = machine.exec.id)
    (idle : (change machine.exec).method = none)
    (bottom : (change machine.exec).startSp = 0)
    (limit : (change machine.exec).stack.limit = machine.exec.stack.limit) :
    machine.Shrinks (machine.modifyExec change) where
  toAdvances := advances_modifyExec closed id
  frames _ _ stands :=
    ⟨[], Execution.stands_of_idle idle bottom (limit ▸ stands.limit), List.nil_suffix,
      fun _ member => nomatch member⟩
  governs _ _ _ _ orderly := by
    refine progresses_of_fewer closed rfl orderly ?_
    have none : (machine.modifyExec change).exec.methods = [] := Execution.methods_of_idle idle
    rw [Machine.methods_eq, Machine.methods_eq, none]
    exact (List.sublist_append_right _ _).subperm

theorem shrinks_halt (idle : machine.exec.method = none) :
    machine.Shrinks (machine.modifyExec fun exec => { exec with pc := 0, startSp := 0 }) :=
  shrinks_of_idle closed rfl idle rfl rfl

theorem shrinks_reset : machine.Shrinks (machine.modifyExec Execution.reset) :=
  shrinks_of_idle closed rfl rfl rfl rfl

/-! ## Leaving frames -/

theorem lowers_dropFrame {id : MethodId} (busy : machine.exec.method = some id)
    (resume : FrameContext → UInt32) : machine.Lowers (machine.dropFrame resume) where
  toAdvances := advances_modifyExec closed rfl
  frames _ saved stands := by
    have chains := stands.chains id busy
    rcases saved with _ | ⟨⟨startSp, context⟩, callers⟩
    · cases chains
    · exact ⟨callers, stands.leave rfl resume, List.suffix_cons _ _,
        stands.agrees_leave rfl resume⟩

omit closed in
/-- Leaving a frame leaves the frames of the other methods. -/
theorem methods_dropFrame {id : MethodId} (busy : machine.exec.method = some id)
    {saved : List SavedFrame} (stands : machine.exec.Stands machine.registry.toClassTable saved)
    (resume : FrameContext → UInt32) :
    machine.methods = id :: (machine.dropFrame resume).methods := by
  have rest : (machine.dropFrame resume).methods =
      (machine.exec.leave resume).methods ++ machine.parked.flatMap Execution.methods :=
    Machine.methods_eq _
  rw [Machine.methods_eq, rest, stands.methods_leave busy resume]
  rfl

/-- What becomes of a class whose initializer is left. -/
theorem progresses_leaveInitializer {id : MethodId} {left : List MethodId}
    (orderly : machine.registry.Orderly (id :: left)) (succeeded : Bool) :
    machine.registry.Progresses (id :: left) (machine.leaveInitializer id succeeded).registry
      left := by
  have stays := closed.stays_leaveInitializer id succeeded
  rw [leaveInitializer] at stays ⊢
  split
  next initializer =>
      rw [if_pos initializer] at stays
      exact orderly.progresses_finish initializer closed.registry stays.closed.registry stays.grows
  next =>
      exact orderly.progresses_of_rests closed.registry closed.registry (.refl _) (.refl _)
        (List.sublist_cons_self id left).subperm

/-- The current frame is left, and its class is settled if it was that of an initializer. -/
theorem shrinks_leave {id : MethodId} (busy : machine.exec.method = some id) (succeeded : Bool)
    (resume : FrameContext → UInt32) :
    machine.Shrinks ((machine.leaveInitializer id succeeded).dropFrame resume) where
  toLowers := by
    have left := closed.stays_leaveInitializer id succeeded
    exact left.lowers.trans (lowers_dropFrame left.closed (left.exec.method.trans busy) resume)
  governs _ _ saved stands orderly := by
    have left := closed.stays_leaveInitializer id succeeded
    have methods : machine.methods =
        id :: ((machine.leaveInitializer id succeeded).dropFrame resume).methods :=
      (left.methods_eq stands).symm.trans
        (methods_dropFrame (left.exec.method.trans busy) (left.stands stands) resume)
    rw [Machine.Orderly, methods] at orderly
    rw [Machine.Progresses, methods]
    exact progresses_leaveInitializer closed orderly succeeded

theorem shrinks_abandonFrame {id : MethodId} (busy : machine.exec.method = some id) :
    machine.Shrinks (machine.abandonFrame id) := by
  have drops : ∀ unlocked : Machine, machine.Calm unlocked →
      machine.Shrinks ((unlocked.leaveInitializer id false).dropFrame (·.callerPc)) :=
    fun unlocked calm =>
      calm.shrinks.trans (shrinks_leave calm.closed (calm.exec.method.trans busy) false _)
  rw [abandonFrame]
  split
  · exact drops _ (closed.calm_exitLock _)
  · exact drops _ closed.calm_refl

/-- The classes of several initializers fail together. -/
theorem leaveInitializers (methods : List MethodId) :
    machine.Stays (methods.foldl (fun machine id => machine.leaveInitializer id false) machine) ∧
      ∀ left, machine.registry.Orderly (methods ++ left) →
        machine.registry.Progresses (methods ++ left)
          (methods.foldl (fun machine id => machine.leaveInitializer id false) machine).registry
          left := by
  induction methods generalizing machine with
  | nil =>
      refine ⟨closed.stays_refl, fun left orderly => ?_⟩
      exact orderly.progresses_of_rests closed.registry closed.registry (.refl _) (.refl _) (.refl _)
  | cons id methods ih =>
      have first := closed.stays_leaveInitializer id false
      obtain ⟨stays, rest⟩ := ih first.closed
      refine ⟨first.trans stays, fun left orderly => ?_⟩
      have progresses := progresses_leaveInitializer closed orderly false
      exact progresses.trans first.grows (rest left progresses.orderly)

/-- An execution that is given up has no frames left. -/
theorem shrinks_abandonExecution : machine.Shrinks machine.abandonExecution := by
  have released := closed.calm_releaseLocks machine.exec.id
  obtain ⟨stays, progresses⟩ := leaveInitializers released.closed
    (machine.releaseLocks machine.exec.id).exec.methods
  have resets := shrinks_reset stays.closed
  refine released.shrinks.trans ⟨stays.lowers.trans resets.toLowers, ?_⟩
  intro _ _ saved stands orderly
  have methods : machine.abandonExecution.methods =
      (machine.releaseLocks machine.exec.id).parked.flatMap Execution.methods := by
    rw [Machine.methods_eq, ← stays.parked]
    exact congrArg (· ++ _) (Execution.methods_of_idle rfl)
  rw [Machine.Orderly, Machine.methods_eq] at orderly
  rw [Machine.Progresses, Machine.methods_eq, methods]
  exact progresses _ orderly

/-! ## Entering frames -/

section

variable {id : MethodId} (linked : machine.registry.HasMethod id)
  (claimed : (machine.method id).frameArgSlots.toNat ≤ machine.exec.stack.sp)
  (bounded : machine.exec.stack.sp ≤ machine.exec.stack.limit)
  (offers : machine.registry.Fit → ∀ saved,
    machine.exec.Stands machine.registry.toClassTable saved →
    machine.exec.Offers (machine.method id).frameArgSlots.toNat)
  (callerPc returnPc : UInt32)

include linked claimed bounded offers

omit closed in
theorem stands_enter {saved : List SavedFrame} (fit : machine.registry.Fit)
    (stands : machine.exec.Stands machine.registry.toClassTable saved) :
    (machine.exec.enter (machine.method id) id callerPc returnPc).Stands
      machine.registry.toClassTable
      ((machine.exec.stack.sp - (machine.method id).frameArgSlots.toNat + 3,
        ⟨machine.exec.method, callerPc, returnPc, machine.exec.startSp⟩) :: saved) :=
  stands.enter linked claimed bounded (offers fit saved stands)
    (fun caller current => fit.encodable_of_hasMethod (stands.linked caller current))
    callerPc returnPc

theorem heightens_enter : machine.Heightens (machine.modifyExec fun exec =>
    exec.enter (machine.method id) id callerPc returnPc) where
  toAdvances := advances_modifyExec closed rfl
  frames fit saved stands :=
    ⟨_, stands_enter linked claimed bounded offers callerPc returnPc fit stands,
      List.suffix_cons _ _, stands.agrees_enter id claimed (offers fit saved stands) callerPc
        returnPc⟩

omit closed in
theorem methods_enter {saved : List SavedFrame} (fit : machine.registry.Fit)
    (stands : machine.exec.Stands machine.registry.toClassTable saved) :
    (machine.modifyExec fun exec =>
      exec.enter (machine.method id) id callerPc returnPc).methods = id :: machine.methods := by
  have entered := stands_enter linked claimed bounded offers callerPc returnPc fit stands
  have all : (machine.modifyExec fun exec =>
      exec.enter (machine.method id) id callerPc returnPc).methods =
        (machine.exec.enter (machine.method id) id callerPc returnPc).methods ++
          machine.parked.flatMap Execution.methods := Machine.methods_eq _
  have current : (machine.exec.enter (machine.method id) id callerPc returnPc).method = some id :=
    rfl
  rw [all, Machine.methods_eq, entered.methods_eq, stands.methods_eq, current]
  cases called : machine.exec.method <;>
    simp only [Option.toList, List.filterMap_cons, List.cons_append, List.nil_append]

theorem deepens_enter (calls : plain → (machine.method id).isInitializer = false) :
    machine.Deepens plain (machine.modifyExec fun exec =>
      exec.enter (machine.method id) id callerPc returnPc) where
  toHeightens := heightens_enter closed linked claimed bounded offers callerPc returnPc
  governs ordinary _ fit saved stands orderly := by
    rw [Machine.Progresses, methods_enter linked claimed bounded offers callerPc returnPc fit stands]
    exact Registry.Orderly.progresses_enter orderly closed.registry linked (calls ordinary)

end

end Machine

namespace Guest

open Machine

variable {plain : Prop} {machine : Machine} (closed : machine.Closed)

include closed

/-! ## Calls -/

/-- A call enters a frame, or throws and leaves all frames alone. -/
theorem ends_pushFrame_calm (id : MethodId) (callerPc returnPc : UInt32) :
    Ends (pushFrame id callerPc returnPc) machine
      (fun _ after => (machine.method id).frameArgSlots.toNat ≤ machine.exec.stack.sp ∧
        machine.exec.stack.sp ≤ machine.exec.stack.limit ∧
        after = machine.modifyExec fun exec =>
          exec.enter (machine.method id) id callerPc returnPc)
      fun _ after => machine.Calm after := by
  have refused {step : Guest PUnit} {entered : PUnit → Machine → Prop}
      (moves : Moves Calm step machine fun _ _ => False) :
      Ends step machine entered fun _ after => machine.Calm after :=
    Ends.mono moves (fun _ _ never => never.2.elim) fun _ _ calm => calm
  simp only [pushFrame, ends_bind, ends_get]
  cases (machine.method id).code with
  | none => exact refused (calm_fault closed _)
  | some code =>
      dsimp only
      split
      · exact refused (calm_fault closed _)
      · next claimed =>
          split
          · exact refused (calm_raise closed _ _)
          · next admits =>
              rw [ends_modify]
              exact ⟨Nat.le_of_not_lt claimed, by omega, rfl⟩

/-- A call whose arguments are operands of the current frame leaves that frame. -/
theorem deepens_pushFrame {id : MethodId} (linked : machine.registry.HasMethod id)
    (offers : machine.registry.Fit → ∀ saved,
      machine.exec.Stands machine.registry.toClassTable saved →
      machine.exec.Offers (machine.method id).frameArgSlots.toNat)
    (calls : plain → (machine.method id).isInitializer = false) (callerPc returnPc : UInt32) :
    Moves (Deepens plain) (pushFrame id callerPc returnPc) machine fun _ _ => True := by
  apply (ends_pushFrame_calm closed id callerPc returnPc).mono
  · rintro - after ⟨claimed, bounded, rfl⟩
    exact ⟨deepens_enter closed linked claimed bounded offers callerPc returnPc calls, trivial⟩
  · exact fun _ _ calm => calm.deepens

/-! ## Returns -/

theorem ends_handOver_shrinks {id : MethodId} (busy : machine.exec.method = some id)
    (value : Value) {thrown : Throw → Machine → Prop} :
    Ends (handOver id value) machine (fun _ after => machine.Shrinks after) thrown := by
  have dropped := shrinks_leave closed busy true (·.returnPc)
  simp only [handOver, ends_bind, ends_modify, ends_get]
  cases caller : ((machine.leaveInitializer id true).dropFrame (·.returnPc)).exec.method with
  | none =>
      rw [if_pos (Execution.isIdle_of_host caller)]
      simp only [ends_bind, ends_modify, ends_pure]
      exact dropped.trans (shrinks_halt dropped.closed caller)
  | some resumed =>
      rw [if_neg (Bool.eq_false_iff.mp (Execution.isIdle_of_method caller))]
      simp only [ends_bind, onStack, ends_modify, ends_pure]
      exact dropped.trans (shrinks_pushValue dropped.closed value)

/-- A return takes the current frame off the chain; if it throws, the frame stays. -/
theorem ends_returnFromFrame_shrinks (value : Value) :
    Ends (returnFromFrame value) machine (fun _ after => machine.Shrinks after)
      fun _ after => machine.Calm after := by
  cases busy : machine.exec.method with
  | none =>
      rw [returnFromFrame, ends_bind, ends_get]
      simp only [busy, Guest.fault, fatal, ends_throw]
      exact closed.calm_refl
  | some id =>
      apply ends_returnFromFrame_of_handOver busy
      · exact fun _ => ends_handOver_shrinks closed busy value
      · intro lock _ _
        have released := closed.calm_exitLock lock
        have current := released.exec.method.trans busy
        have hands : Ends (handOver id value) (machine.exitLock lock).2
            (fun _ after => (machine.exitLock lock).2.Shrinks after)
            fun _ after => machine.Calm after :=
          ends_handOver_shrinks released.closed current value
        apply hands.mono
        · exact fun _ _ shrinks => released.shrinks.trans shrinks
        · exact fun _ _ calm => calm
      · intro lock _ _
        have released := closed.calm_exitLock lock
        have raises : Moves Calm (raise .illegalMonitorStateException none : Guest PUnit)
            (machine.exitLock lock).2 fun _ _ => False :=
          calm_raise released.closed _ _
        exact Ends.mono raises (fun _ _ never => never.2) fun _ _ calm => released.trans calm

/-! ## Exceptions -/

theorem calm_findHandlerIn (owner : ClassId) (pc : UInt32) (thrown : ClassId)
    (handlers : List Handler) :
    Moves Calm (findHandlerIn owner pc thrown handlers) machine fun _ _ => True := by
  induction handlers generalizing machine with
  | nil => exact Moves.pure closed.calm_refl trivial
  | cons handler rest ih =>
      rw [findHandlerIn]
      split
      · exact ih closed
      · split
        · exact Moves.pure closed.calm_refl trivial
        · refine (calm_linkClass closed owner handler.catchType).bind ?_
          intro loaded after calm _
          cases loaded with
          | ok caught =>
              refine Moves.get_bind ?_
              split
              · exact Moves.pure calm.closed.calm_refl trivial
              · exact ih calm.closed
          | error error => exact ih calm.closed

theorem calm_findHandler (id : MethodId) (pc : UInt32) (thrown : ClassId) :
    Moves Calm (findHandler id pc thrown) machine fun _ _ => True := by
  refine Moves.get_bind ?_
  split
  · exact calm_findHandlerIn closed id.owner pc thrown _
  · exact Moves.pure closed.calm_refl trivial

theorem shrinks_enterHandler (id : MethodId) (handlerPc : UInt32) (ref : Ref) :
    Moves Shrinks (enterHandler id handlerPc ref) machine fun _ _ => True := by
  refine Moves.modify (shrinks_of_keeps closed rfl rfl rfl ?_ ?_) trivial
  · exact (Stack.limit_pushValue _ (.ref (some ref))).trans (Stack.limit_setSp _ _)
  · intro _ _ room
    have cut : machine.exec.stack.Keeps (machine.exec.startSp + 1)
        (machine.exec.stack.setSp (machine.exec.startSp + 1 + (machine.method id).frameLocals)) :=
      Stack.keeps_setSp (Nat.le_add_right _ _)
    exact cut.trans (Stack.keeps_pushRef cut.room _)

/-- Unwinding takes frames off the chain until one handles the exception. -/
theorem shrinks_unwindFrames (ref : Ref) (thrown : ClassId) (fuel : Nat)
    (trace : List (MethodId × UInt32)) :
    Moves Shrinks (unwindFrames ref thrown fuel trace) machine fun _ _ => True := by
  induction fuel generalizing machine trace with
  | zero => exact Moves.throw closed.calm_refl.shrinks
  | succ fuel ih =>
      rw [unwindFrames]
      refine Moves.get_bind ?_
      split
      next =>
          have resets := shrinks_reset closed
          exact Moves.modify_bind resets (Moves.throw resets.closed.calm_refl.shrinks)
      next id busy =>
          have searches : Moves Calm (findHandler id machine.exec.pc thrown) machine
              fun _ after => after.exec.method = some id :=
            (calm_findHandler closed id _ thrown).mono fun _ _ calm _ =>
              calm.exec.method.trans busy
          refine (searches.of_related fun _ calm => calm.shrinks).bind ?_
          intro handler after searched busy
          cases handler with
          | some handlerPc => exact shrinks_enterHandler searched.closed id handlerPc ref
          | none =>
              have drops := shrinks_abandonFrame searched.closed busy
              exact Moves.modify_bind drops (ih drops.closed _)

theorem shrinks_unwind (ref : Ref) : Moves Shrinks (unwind ref) machine fun _ _ => True := by
  refine Moves.get_bind ?_
  split
  · exact (calm_fault closed _).of_related fun _ calm => calm.shrinks
  · exact shrinks_unwindFrames closed ref _ _ _

end Guest

namespace Host

open Machine

/-- A step on behalf of guest code moves the machine as it does for the host. -/
theorem moves_ofGuest {α : Type} {related : Machine → Machine → Prop} {step : Guest α}
    {machine : Machine} {returned : α → Machine → Prop}
    (moves : Moves related step machine returned) :
    Moves related (ofGuest step) machine returned := by
  simp only [Moves, Ends, ofGuest] at moves ⊢
  cases ran : step machine with
  | ok value after =>
      rw [ran] at moves
      exact moves
  | error thrown after =>
      rw [ran] at moves
      cases thrown <;> exact moves

theorem shrinks_unwind {machine : Machine} (closed : machine.Closed) (ref : Ref) :
    Moves Shrinks (unwind ref) machine fun _ _ => True :=
  moves_ofGuest (Guest.shrinks_unwind closed ref)

end Host

/-!
## Starting initializers

A class begins with its static fields. Then the frame of its initializer is pushed, if
it has one, and its superclasses follow, so that theirs come to lie on top. If no frame
was pushed on the way, the class is initialized already; if a class cannot go on and
has no frame either, it has failed. A class that has begun before is never touched.
-/

namespace Machine

/-- Whether a class has begun and no initializer of it has a frame. -/
def Pending (id : ClassId) (_before after : Machine) : Prop :=
  (after.cls id).initState = .initializing ∧ id ∉ after.initializing

section

variable {machine : Machine} (closed : machine.Closed) {id : ClassId}
  (known : machine.registry.Has id) (state : (machine.cls id).initState = .uninitialized)
  (prepared : (machine.cls id).Prepared)

include closed known state prepared

theorem begins_setState :
    machine.Begins (machine.modifyClass id fun cls => { cls with initState := .initializing }) where
  toHeightens := (closed.stays_setState id .initializing).heightens
  launches _ _ _ stands orderly := by
    have stays := closed.stays_setState id .initializing
    rw [Launches, stays.methods_eq stands]
    exact .begin orderly closed.registry known state prepared stays.closed.registry (.inl rfl)

omit prepared in
theorem pending_setState : Governed (Pending id) machine
    (machine.modifyClass id fun cls => { cls with initState := .initializing }) := by
  intro _ _ saved stands orderly
  have stays := closed.stays_setState id .initializing
  refine ⟨(ClassTable.initState_setState known).trans (if_pos rfl), ?_⟩
  have same : (machine.modifyClass id fun cls =>
      { cls with initState := .initializing }).initializing = machine.initializing := by
    rw [initializing, stays.methods_eq stands]
    exact Registry.initializing_congr stays.grows fun _ member => (orderly.linked _ member).1
  rw [same]
  apply orderly.notMem_of_state
  intro begun
  cases state.symm.trans begun

/-- The initializer of a class that begins gets a frame on top. -/
theorem begins_enter {method : MethodId} (found : (machine.cls id).initializer? = some method)
    {begun : Machine}
    (same : begun = machine.modifyClass id fun cls => { cls with initState := .initializing })
    (claimed : (begun.method method).frameArgSlots.toNat ≤ begun.exec.stack.sp)
    (bounded : begun.exec.stack.sp ≤ begun.exec.stack.limit) (pc : UInt32) :
    machine.Begins (begun.modifyExec fun exec => exec.enter (begun.method method) method pc pc) := by
  have stays : machine.Stays begun := same ▸ closed.stays_setState id .initializing
  have linked : begun.registry.HasMethod method :=
    stays.grows.hasMethod (ClassTable.hasMethod_of_initializer? closed.registry.table known found)
  have later : (begun.registry.get id).initializer? = some method := by
    rw [Class.initializer?, stays.grows.declaredMethod? closed.registry.table
      stays.closed.registry.table known]
    exact found
  have offers : begun.registry.Fit → ∀ saved,
      begun.exec.Stands begun.registry.toClassTable saved →
      begun.exec.Offers (begun.method method).frameArgSlots.toNat := by
    intro fit saved stands
    have none : (begun.method method).frameArgSlots = 0 :=
      fit.initializers id method (stays.grows.has known) later
    rw [none]
    exact stands.offers
  refine ⟨stays.heightens.trans
    (heightens_enter stays.closed linked claimed bounded offers pc pc), ?_⟩
  intro _ fit saved stands orderly
  rw [Launches, methods_enter linked claimed bounded offers pc pc fit (stays.stands stands),
    stays.methods_eq stands]
  subst same
  exact .begin orderly closed.registry known state prepared stays.closed.registry
    (.inr ⟨method, found, rfl⟩)

end

section

variable {first second third : Machine} {id : ClassId} (begins : first.Begins second)
  (pending : Governed (Pending id) first second)

include begins pending

/-- A class that has begun is left alone by others that begin. -/
theorem Begins.pending_trans (known : first.registry.Has id) (right : second.Begins third) : Governed (Pending id) first third := by
  intro closed fit saved stands orderly
  have fitBetween := fit_of_growsTo begins.closed right.closed right.grows fit
  have launched := begins.launches closed fitBetween saved stands orderly
  obtain ⟨state, absent⟩ := pending closed fitBetween saved stands orderly
  obtain ⟨middle, stands, -⟩ := begins.frames fitBetween saved stands
  have later := right.launches begins.closed fit middle stands launched.orderly
  have known := begins.grows.has known
  have begun : (second.registry.get id).initState ≠ .uninitialized := by
    intro fresh
    cases fresh.symm.trans state
  refine ⟨(later.kept id known begun).trans state, ?_⟩
  intro member
  rcases later.launched id member known with running | fresh
  · exact absent running
  · exact begun fresh

/-- What becomes of a class that has begun and has no frame. -/
theorem Begins.settle (state : (first.cls id).initState = .uninitialized) {outcome : InitState}
    (next : InitState.Next .initializing outcome) :
    first.Begins (second.modifyClass id fun cls => { cls with initState := outcome }) := by
  have stays := begins.closed.stays_setState id outcome
  refine ⟨begins.toHeightens.trans stays.heightens, ?_⟩
  intro closed fit saved stands orderly
  have fitBetween := fit_of_growsTo begins.closed stays.closed stays.grows fit
  have launched := begins.launches closed fitBetween saved stands orderly
  obtain ⟨begun, absent⟩ := pending closed fitBetween saved stands orderly
  obtain ⟨middle, stands, -⟩ := begins.frames fitBetween saved stands
  rw [Launches, stays.methods_eq stands]
  exact launched.settle begins.grows begins.closed.registry state begun next absent
    stays.closed.registry

end

end Machine

namespace Guest

open Machine

variable {machine : Machine} (closed : machine.Closed)

include closed

section

variable {id : ClassId} (known : machine.registry.Has id)
  (state : (machine.cls id).initState = .uninitialized) (prepared : (machine.cls id).Prepared)

include known state prepared

/-- The initializer of a class that has just begun gets a frame, if the class has one. -/
theorem begins_pushInitializer (pc : UInt32) :
    Moves (fun _ => machine.Begins) (pushInitializer id pc)
      (machine.modifyClass id fun cls => { cls with initState := .initializing })
      fun pushed after => pushed = false → machine.Stays after ∧
        Governed (Pending id) machine after := by
  have stays := closed.stays_setState id .initializing
  have begins := begins_setState closed known state prepared
  have pending := pending_setState closed known state
  have same : ((machine.modifyClass id fun cls =>
      { cls with initState := .initializing }).cls id).initializer? =
        (machine.cls id).initializer? :=
    stays.grows.declaredMethod? closed.registry.table stays.closed.registry.table known _ _
  rw [Moves, pushInitializer, ends_bind, ends_get, same]
  cases found : (machine.cls id).initializer? with
  | none => exact ends_pure.mpr ⟨begins, fun _ => ⟨stays, pending⟩⟩
  | some method =>
      rw [ends_bind, ends_onThrow]
      apply (ends_pushFrame_calm stays.closed method pc pc).mono
      · rintro - after ⟨claimed, bounded, rfl⟩
        refine ends_pure.mpr ⟨?_, by rintro ⟨⟩⟩
        exact begins_enter closed known state prepared found rfl claimed bounded pc
      · intro _ after calm
        have raised := begins.pending_trans pending known calm.begins
        exact (begins.trans calm.begins).settle raised state .fail

end

/-- Initializers are started, or nothing has changed that concerns frames. -/
theorem begins_initializeChain {ids : List ClassId}
    (known : ∀ id ∈ ids, machine.registry.Has id) (pc : UInt32) :
    Moves Begins (initializeChain ids pc) machine
      fun pushed after => pushed = false → machine.Stays after := by
  induction ids generalizing machine pc with
  | nil => exact Moves.pure closed.calm_refl.begins fun _ => closed.stays_refl
  | cons id above ih =>
      have here := known id (.head _)
      rw [initializeChain]
      refine Moves.get_bind ?_
      split
      next => exact Moves.pure closed.calm_refl.begins fun _ => closed.stays_refl
      next => exact Moves.pure closed.calm_refl.begins fun _ => closed.stays_refl
      next =>
          have raises : Moves Calm (raise .noClassDefFoundError
              (some s!"Could not initialize class {machine.displayName id}") : Guest Bool) machine
              fun pushed after => pushed = false → machine.Stays after := calm_raise closed _ _
          exact Moves.get_bind (raises.of_related fun _ calm => calm.begins)
      next fresh =>
          refine (calm_prepareStatics closed here).compose Begins (fun _ _ calm => calm.begins) ?_
          intro _ first calm prepared
          have here := calm.grows.has here
          have state : (first.cls id).initState = .uninitialized :=
            (calm.rests.table.state id (known id (.head _))).trans fresh
          have started := begins_setState calm.closed here state prepared
          have sets : Moves Begins (setInitState id .initializing) first fun _ after =>
              after = first.modifyClass id fun cls => { cls with initState := .initializing } :=
            Moves.modify started rfl
          refine sets.bind_from ?_
          rintro - _ - rfl
          refine (begins_pushInitializer calm.closed here state prepared pc).bind_from ?_
          intro pushed second pushes quiet
          have rest : Moves (fun _ => first.Begins)
              (onThrow (initializeChain above (if pushed then 0 else pc)) fun machine =>
                if pushed then machine else markFailed id machine) second
              fun pushedAbove after => second.Begins after ∧
                (pushedAbove = false → second.Stays after) := by
            have inherited := ih pushes.closed (fun other member =>
              pushes.grows.has (calm.grows.has (known other (.tail _ member))))
              (if pushed then 0 else pc)
            rw [Moves, ends_onThrow]
            apply Ends.mono inherited
            · exact fun _ _ ended => ⟨pushes.trans ended.1, ended⟩
            · intro _ after begins
              cases pushed with
              | true => exact pushes.trans begins
              | false =>
                  have pending := pushes.pending_trans (quiet rfl).2 here begins
                  exact (pushes.trans begins).settle pending state .fail
          refine rest.bind_from ?_
          rintro pushedAbove last begins ⟨later, quietAbove⟩
          cases pushed with
          | true => exact Moves.pure begins (by rintro ⟨⟩)
          | false =>
              cases pushedAbove with
              | true => exact Moves.pure begins (by rintro ⟨⟩)
              | false =>
                  obtain ⟨stays, pending⟩ := quiet rfl
                  have pending := pushes.pending_trans pending here later
                  have ended := begins.settle pending state .complete
                  have still := (stays.trans (quietAbove rfl)).trans
                    (begins.closed.stays_setState id .initialized)
                  have sets : Moves (fun _ => first.Begins) (setInitState id .initialized) last
                      fun _ after => machine.Stays after :=
                    Moves.modify ended (calm.toStays.trans still)
                  exact sets.bind_from fun _ _ ended still => Moves.pure ended fun _ => still

/-- Whether initializers are started before a class is used, the frames below stay. -/
theorem begins_ensureInitialized {id : ClassId} (known : machine.registry.Has id) (pc : UInt32) :
    Moves Begins (ensureInitialized id pc) machine
      fun pushed after => pushed = false → machine.Stays after := by
  refine Moves.get_bind ?_
  split
  · exact Moves.pure closed.calm_refl.begins fun _ => closed.stays_refl
  · exact Moves.pure closed.calm_refl.begins fun _ => closed.stays_refl
  · exact begins_initializeChain closed
      (fun above member => ClassTable.has_of_mem_superChain closed.registry.table known member) pc

theorem deepens_ensureInitialized {plain : Prop} {id : ClassId} (known : machine.registry.Has id)
    (pc : UInt32) : Moves (Deepens plain) (ensureInitialized id pc) machine
      fun pushed after => pushed = false → machine.Stays after :=
  (begins_ensureInitialized closed known pc).of_related fun _ begins => begins.deepens

end Guest

end Jvm
