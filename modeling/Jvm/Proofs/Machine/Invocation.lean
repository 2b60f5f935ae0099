import Jvm.Proofs.Machine.Natives
import Jvm.Proofs.Machine.Staging

/-!
# What calls leave alone

A native never touches the execution that calls it, whether it is one of the
machine's own or of an embedder. All that it may do to executions is to create a
further one, for a thread that starts; that one gets frames that stand. A call
therefore works on its arguments and above, be the method native or not.
-/

namespace Jvm

namespace Machine

/-- Whether a machine has changed, if at all, in nothing that concerns frames, but
for an execution that was created; and initialization has stayed in order if all calls
were plain. -/
structure Serves (plain : Prop) (before after : Machine) : Prop where
  grows : before.registry.GrowsTo after.registry.toClassTable
  closed : after.Closed
  config : after.config = before.config
  exec : before.exec.Untouched after.exec
  parked : before.Parks after
  governs : plain → Governed Progresses before after

/-- Whether a machine has changed, if at all, in nothing that concerns frames, those of
parked executions included. -/
structure Retains (before after : Machine) : Prop where
  grows : before.registry.GrowsTo after.registry.toClassTable
  closed : after.Closed
  config : after.config = before.config
  exec : before.exec.Untouched after.exec
  parked : ∀ exec ∈ after.parked, ∃ old ∈ before.parked, old.Untouched exec
  governs : Governed Progresses before after

section

variable {plain : Prop} {first second third : Machine}

theorem Calm.serves (calm : first.Calm second) : first.Serves plain second :=
  ⟨calm.grows, calm.closed, calm.config, calm.exec, parks_of_eq calm.parked,
    fun _ => calm.shrinks.governs⟩

theorem Calm.retains (calm : first.Calm second) : first.Retains second where
  grows := calm.grows
  closed := calm.closed
  config := calm.config
  exec := calm.exec
  parked exec member := by
    rw [calm.parked] at member
    exact ⟨exec, member, .refl exec⟩
  governs := calm.shrinks.governs

theorem Retains.trans (left : first.Retains second) (right : second.Retains third) :
    first.Retains third where
  grows := left.grows.trans right.grows
  closed := right.closed
  config := right.config.trans left.config
  exec := left.exec.trans right.exec
  parked exec member := by
    obtain ⟨middle, kept, after⟩ := right.parked exec member
    obtain ⟨old, found, before⟩ := left.parked middle kept
    exact ⟨old, found, before.trans after⟩
  governs := left.governs.trans right.governs left.closed
    (fit_of_growsTo left.closed right.closed right.grows) left.grows
    fun _ saved stands => ⟨saved, (stands.untouched left.exec).grow left.grows⟩

theorem Calm.trans_serves (left : first.Calm second) (right : second.Serves plain third) :
    first.Serves plain third where
  grows := left.grows.trans right.grows
  closed := right.closed
  config := right.config.trans left.config
  exec := left.exec.trans right.exec
  parked := right.parked.before left.parked left.nextExec
  governs calls := left.shrinks.governs.trans (right.governs calls) left.closed
    (fit_of_growsTo left.closed right.closed right.grows) left.grows
    fun _ saved stands => ⟨saved, (stands.untouched left.exec).grow left.grows⟩

theorem Serves.trans_retains (left : first.Serves plain second) (right : second.Retains third) :
    first.Serves plain third where
  grows := left.grows.trans right.grows
  closed := right.closed
  config := right.config.trans left.config
  exec := left.exec.trans right.exec
  parked := left.parked.after right.parked right.grows
    (fit_of_growsTo left.closed right.closed right.grows)
  governs calls := (left.governs calls).trans right.governs left.closed
    (fit_of_growsTo left.closed right.closed right.grows) left.grows
    fun _ saved stands => ⟨saved, (stands.untouched left.exec).grow left.grows⟩

/-- Which calls are plain may depend on what a machine in order knows. -/
theorem Serves.of_ordered (serves : first.Serves (plain ∧ first.registry.Ordered) second) :
    first.Serves plain second where
  grows := serves.grows
  closed := serves.closed
  config := serves.config
  exec := serves.exec
  parked := serves.parked
  governs calls closed fit saved stands orderly :=
    serves.governs ⟨calls, orderly.ordered⟩ closed fit saved stands orderly

theorem Serves.extends (serves : first.Serves plain second) : first.Extends plain second where
  grows := serves.grows
  closed := serves.closed
  config := serves.config
  id := serves.exec.id
  parked := serves.parked
  frames _ saved stands := by
    refine ⟨saved, (stands.untouched serves.exec).grow serves.grows, List.suffix_rfl, ?_⟩
    rw [serves.exec.stack]
    exact .refl _ saved
  governs := serves.governs

end

instance : Trans Retains Retains Retains := ⟨Retains.trans⟩

instance : Trans Calm Retains Retains := ⟨fun calm retains => calm.retains.trans retains⟩

instance {plain : Prop} : Trans Calm (Serves plain) (Serves plain) := ⟨Calm.trans_serves⟩

instance {plain : Prop} : Trans (Serves plain) Retains (Serves plain) := ⟨Serves.trans_retains⟩

instance {plain : Prop} : Trans (Serves plain) (Deepens plain) (Extends plain) :=
  ⟨fun serves deepens => serves.extends.trans_deepens deepens⟩

end Machine

open Machine

/-! ## Looking up for the host -/

namespace Host

variable {machine : Machine} (closed : machine.Closed)

include closed

theorem calm_linking {steps : Registry → Except LoadError ClassId × Registry}
    (links : machine.registry.LinksClass (steps machine.registry)) :
    Moves Calm (linking steps) machine fun id after => after.registry.Has id := by
  rcases ran : steps machine.registry with ⟨loaded, registry⟩
  rw [ran] at links
  have calm : machine.Calm { machine with registry } :=
    closed.calm_registry links.closed links.grows links.rests
  cases loaded with
  | ok id => exact Moves.of_ok (by simp only [linking, ran]) calm (links.has id rfl)
  | error error =>
      have failed : linking steps machine = .error (.load error) { machine with registry } := by
        simp only [linking, ran]
      exact Moves.of_error failed calm

theorem calm_load (name : String) :
    Moves Calm (load name) machine fun id after => after.registry.Has id :=
  calm_linking closed (Registry.links_load closed.registry name)

theorem calm_findMethod {owner : ClassId} (known : machine.registry.Has owner)
    (name descriptor : String) :
    Moves Calm (findMethod owner name descriptor) machine
      fun id after => after.registry.HasMethod id := by
  refine Moves.get_bind ?_
  split
  next id found =>
      have linked := ClassTable.hasMethod_of_lookupMethod closed.registry.table known found
      exact Moves.pure closed.calm_refl linked
  next => exact Moves.get_bind (Moves.throw closed.calm_refl)

theorem calm_findStatic (className name descriptor : String) :
    Moves Calm (findStatic className name descriptor) machine
      fun id after => after.registry.HasMethod id := by
  refine (calm_load closed className).bind ?_
  intro owner first loads known
  refine (calm_findMethod loads.closed known name descriptor).bind ?_
  intro id last found linked
  refine Moves.get_bind ?_
  split
  · exact Moves.pure found.closed.calm_refl linked
  · exact Moves.throw found.closed.calm_refl

end Host

/-! ## Scripts of embedders -/

namespace Reentry

variable {reentry : Reentry} (stages : reentry.Stages) {machine : Machine}

include stages

/-- A busy execution cannot call. -/
theorem calm_call (closed : machine.Closed) {current : MethodId}
    (busy : machine.exec.method = some current) (id : MethodId) (arguments : List Value) :
    Moves Calm (reentry.call id arguments) machine fun _ _ => True := by
  obtain ⟨error, refused⟩ := stages.busy machine id current arguments busy
  have ran : reentry.call id arguments machine = .error error machine := by
    simp only [call, bind, EStateM.bind, refused]
  exact Moves.of_error ran closed.calm_refl

end Reentry

namespace HostAction

theorem moves_request {α : Type} {related : Machine → Machine → Prop} {step : Host α}
    {machine : Machine} {returned : α → Machine → Prop}
    (moves : Moves related step machine returned) :
    Moves related (request step) machine fun _ _ => True := by
  simp only [Moves, Ends, request] at moves ⊢
  cases ran : step machine with
  | ok value after =>
      rw [ran] at moves
      exact ⟨moves.1, trivial⟩
  | error error after =>
      rw [ran] at moves
      exact ⟨moves, trivial⟩

theorem calm_run {reentry : Reentry} (stages : reentry.Stages) (action : HostAction)
    {machine : Machine} (closed : machine.Closed) {current : MethodId}
    (busy : machine.exec.method = some current) :
    Moves Calm (action.run reentry) machine fun _ _ => True := by
  induction action generalizing machine with
  | finish value => exact Moves.pure closed.calm_refl trivial
  | raise exception => exact Moves.throw closed.calm_refl
  | fail error => exact Guest.calm_fatal closed error
  | newString text next ih =>
      have makes := Host.moves_ofGuest (Guest.calm_newString closed text)
      refine (moves_request makes).bind ?_
      intro made after calm _
      exact ih made calm.closed (calm.exec.method.trans busy)
  | invokeStatic owner name descriptor arguments next ih =>
      have calls : Moves Calm (do
          let method ← Host.findStatic owner name descriptor
          reentry.call method arguments) machine fun _ _ => True := by
        refine (Host.calm_findStatic closed owner name descriptor).bind ?_
        intro method after calm _
        exact reentry.calm_call stages calm.closed (calm.exec.method.trans busy) method arguments
      refine (moves_request calls).bind ?_
      intro result after calm _
      exact ih result calm.closed (calm.exec.method.trans busy)
  | depth exec next ih => exact Moves.get_bind (ih _ closed busy)
  | terminate next ih =>
      have asked : machine.Calm machine.terminate :=
        ⟨⟨.refl _, ⟨closed.registry, closed.known, closed.heap⟩, .refl _, rfl, rfl, rfl⟩, .refl _⟩
      exact Moves.modify_bind asked (ih asked.closed busy)

end HostAction

/-! ## Threads -/

namespace Machine

/-- The machine with a fresh execution as the current one; the one before is parked. -/
def spawn (machine : Machine) : Machine :=
  ({ machine with nextExec := machine.nextExec + 1 } : Machine).switchTo
    (Execution.idle machine.nextExec machine.config.stackSlots)

/-- The executions that go on once the new one is left. -/
def others (machine : Machine) : List Execution := machine.parked.filter (·.id ≠ machine.exec.id)

theorem others_sublist (machine : Machine) : machine.others.Sublist machine.parked :=
  List.filter_sublist

section

variable {plain : Prop} {machine after : Machine} (settles : machine.spawn.Settles plain after)

include settles

/-- The execution that was replaced comes back, as no others were parked since. -/
theorem switchBack_of_spawn :
    after.switchBack machine.exec.id =
      (after.exec, { after with exec := machine.exec, parked := machine.others }) := by
  have parked : after.parked = machine.exec :: machine.others := settles.parked
  have found : after.parked.find? (·.id == machine.exec.id) = some machine.exec := by
    rw [parked, List.find?_cons, beq_self_eq_true]
  have left : after.parked.filter (·.id ≠ machine.exec.id) = machine.others := by
    rw [parked]
    simp [others]
  simp only [switchBack, unpark, found, left, Option.map_some]

variable (closed : machine.Closed)
  (bounded : machine.config.stackSlots ≤ FrameContext.encodablePositions)

include closed bounded

/-- The machine serves with its execution back and some of the others still there, the new
one perhaps among them. -/
theorem serves_of_spawn {executions : List Execution}
    (known : ∀ exec ∈ executions, exec ∈ machine.parked ∨ exec = after.exec)
    (fewer : (machine.exec :: executions).Subperm (after.exec :: machine.exec :: machine.others)) :
    machine.Serves plain { after with exec := machine.exec, parked := executions } := by
  have idle : machine.spawn.exec.Stands machine.spawn.registry.toClassTable [] :=
    Execution.stands_of_idle rfl rfl bounded
  refine ⟨settles.grows, ?_, settles.config, .refl _, ?_, ?_⟩
  · exact ⟨settles.closed.registry, settles.closed.known, settles.closed.heap⟩
  · intro exec member
    rcases known exec member with old | rfl
    · exact .inl ⟨exec, old, .refl exec⟩
    · exact .inr ⟨settles.id, fun fit => settles.frames fit [] idle⟩
  · intro ordinary _ fit _ _ orderly
    have begins : machine.Progresses machine.spawn := by
      refine progresses_of_fewer closed rfl orderly ?_
      exact ((machine.others_sublist.cons_cons machine.exec).flatMap Execution.methods).subperm
    have staged := settles.governs ordinary ⟨closed.registry, closed.known, closed.heap⟩ fit []
      idle begins.orderly
    have parked : after.parked = machine.exec :: machine.others := settles.parked
    rw [← parked] at fewer
    have ends : after.Progresses { after with exec := machine.exec, parked := executions } :=
      progresses_of_fewer settles.closed rfl staged.orderly (methods_subperm fewer)
    exact begins.trans (.refl _) (staged.trans settles.grows ends)

/-- An execution that has ended already is left behind. -/
theorem serves_of_left :
    machine.Serves plain { after with exec := machine.exec, parked := machine.others } :=
  serves_of_spawn settles closed bounded
    (fun _ member => .inl (machine.others_sublist.subset member))
    (List.sublist_cons_self _ _).subperm

/-- An execution that has frames is parked. -/
theorem serves_of_parked :
    machine.Serves plain
      ({ after with exec := machine.exec, parked := machine.others }.park after.exec) := by
  apply serves_of_spawn settles closed bounded
  · intro exec member
    rcases List.mem_cons.mp member with rfl | kept
    · exact .inr rfl
    · exact .inl (machine.others_sublist.subset (List.mem_of_mem_filter kept))
  · refine (List.Perm.swap _ _ _).subperm.trans (List.Sublist.subperm ?_)
    exact (List.filter_sublist.cons_cons machine.exec).cons_cons after.exec

end

end Machine

namespace Reentry

/-- A thread is prepared by staging its method in an execution of its own. -/
theorem prepare_eq (reentry : Reentry) (id : MethodId) (arguments : List Value)
    (machine : Machine) :
    reentry.prepare id arguments machine =
      match reentry.enter id arguments machine.spawn with
      | .error error after => .error error (after.switchBack machine.exec.id).2
      | .ok (some value) after => .ok machine.nextExec
          { (after.switchBack machine.exec.id).2 with
            completed := (machine.nextExec, value) ::
              (after.switchBack machine.exec.id).2.completed }
      | .ok none after => .ok machine.nextExec
          ((after.switchBack machine.exec.id).2.park (after.switchBack machine.exec.id).1) := by
  have spawned : ({ machine with nextExec := machine.nextExec + 1 } : Machine).switchTo
      (Execution.idle machine.nextExec machine.config.stackSlots) = machine.spawn := rfl
  simp only [prepare, spawned]
  cases reentry.enter id arguments machine.spawn with
  | error error after => rfl
  | ok entered after => cases entered <;> rfl

variable {plain : Prop} {reentry : Reentry} (stages : reentry.Stages) {machine : Machine}
  (closed : machine.Closed)
  (bounded : machine.config.stackSlots ≤ FrameContext.encodablePositions)

include stages closed bounded

/-- A thread that is prepared gets an execution with frames that stand. -/
theorem serves_prepare {id : MethodId} (linked : machine.registry.HasMethod id)
    (arguments : List Value)
    (calls : plain → Host.accepts (machine.method id) arguments = true →
      (machine.method id).isInitializer = false) :
    Moves (Serves plain) (reentry.prepare id arguments) machine fun _ _ => True := by
  have staged : Moves (Settles plain) (reentry.enter id arguments) machine.spawn fun _ _ => True :=
    stages.settles plain machine.spawn id arguments ⟨closed.registry, closed.known, closed.heap⟩
      linked calls
  cases ran : reentry.enter id arguments machine.spawn with
  | error error after =>
      have settles := ends_of_error ran staged
      have failed := reentry.prepare_eq id arguments machine
      simp only [ran, switchBack_of_spawn settles] at failed
      exact Moves.of_error failed (serves_of_left settles closed bounded)
  | ok entered after =>
      have settles := (ends_of_ok ran staged).1
      have ended := reentry.prepare_eq id arguments machine
      cases entered with
      | some value =>
          simp only [ran, switchBack_of_spawn settles] at ended
          have serves := serves_of_left settles closed bounded
          refine Moves.of_ok ended ⟨serves.grows, ?_, serves.config, serves.exec, serves.parked,
            serves.governs⟩ trivial
          exact ⟨serves.closed.registry, serves.closed.known, serves.closed.heap⟩
      | none =>
          simp only [ran, switchBack_of_spawn settles] at ended
          exact Moves.of_ok ended (serves_of_parked settles closed bounded) trivial

end Reentry

/-- A step on behalf of the host moves the machine as it does for guest code. -/
theorem Guest.moves_ofHost {α : Type} {related : Machine → Machine → Prop} {step : Host α}
    {machine : Machine} {returned : α → Machine → Prop}
    (moves : Moves related step machine returned) :
    Moves related (ofHost step) machine returned := by
  simp only [Moves, Ends, ofHost] at moves ⊢
  cases ran : step machine with
  | ok value after =>
      rw [ran] at moves
      exact moves
  | error error after =>
      rw [ran] at moves
      exact moves

namespace ThreadNative

open Guest

section

variable {machine : Machine} (closed : machine.Closed)

include closed

theorem calm_setExecution (thread : Ref) (id : ExecId) :
    Moves Calm (setExecution thread id) machine fun _ _ => True :=
  Moves.modify (closed.calm_modifyHeap (closed.heap.modifyFields thread _)) trivial

theorem calm_pause (millis : Int64) : Moves Calm (pause millis) machine fun _ _ => True := by
  rw [pause]
  split
  · exact calm_raise closed _ _
  · have sleeps : machine.Calm { machine.modifyExec fun exec =>
        { exec with wakeAt := some (machine.now + millis.toNatClampNeg * 1000000) } with
          yieldRequested := true } :=
      ⟨⟨.refl _, ⟨closed.registry, closed.known, closed.heap⟩, ⟨rfl, rfl, rfl, rfl⟩, rfl, rfl, rfl⟩,
        .refl _⟩
    exact Moves.modify_bind sleeps (Moves.pure sleeps.closed.calm_refl trivial)

theorem calm_current : Moves Calm current machine fun _ _ => True := by
  refine Moves.get_bind ?_
  split
  · exact Moves.pure closed.calm_refl trivial
  · refine Moves.get_bind ((calm_newInstance closed closed.known.thread).bind ?_)
    intro thread first made _
    refine Moves.get_bind ((calm_setExecution made.closed thread _).bind ?_)
    intro _ last named _
    have owned : last.Calm (last.modifyExec fun exec => { exec with threadObject := some thread }) :=
      named.closed.calm_modifyExec ⟨rfl, rfl, rfl, rfl⟩
    exact Moves.modify_bind owned (Moves.pure owned.closed.calm_refl trivial)

/-- An execution that was prepared is given the thread that it runs. -/
theorem retains_adopt (thread : Ref) (id : ExecId) :
    machine.Retains { machine with
      parked := machine.parked.map fun exec =>
        if exec.id = id then { exec with threadObject := some thread } else exec
      guestThreads := machine.guestThreads ++ [id] } := by
  refine ⟨.refl _, ?_, rfl, .refl _, ?_, ?_⟩
  · exact ⟨closed.registry, closed.known, closed.heap⟩
  · intro exec member
    obtain ⟨old, kept, rfl⟩ := List.mem_map.mp member
    refine ⟨old, kept, ?_⟩
    split <;> exact ⟨rfl, rfl, rfl, rfl⟩
  · intro closed _ _ _ orderly
    refine progresses_of_fewer closed rfl orderly (List.Perm.subperm (.of_eq ?_))
    rw [methods_eq, methods_eq, List.flatMap_map]
    congr 2
    funext exec
    split <;> rfl

end

variable {plain : Prop} {reentry : Reentry} (stages : reentry.Stages) {machine : Machine}
  (closed : machine.Closed)
  (bounded : machine.config.stackSlots ≤ FrameContext.encodablePositions)

include stages closed bounded

/-- The method that a thread runs is not an initializer. -/
theorem serves_prepareRun {cls : ClassId} (known : machine.registry.Has cls) {run : MethodId}
    (selected : machine.registry.lookupMethod cls "run" "()V" = some run)
    (arguments : List Value) :
    Moves (Serves plain) (reentry.prepare run arguments) machine fun _ _ => True := by
  have linked := ClassTable.hasMethod_of_lookupMethod closed.registry.table known selected
  have runs : plain ∧ machine.registry.Ordered →
      Host.accepts (machine.method run) arguments = true →
        (machine.method run).isInitializer = false := by
    rintro ⟨-, ordered⟩ -
    have named := ClassTable.name_of_lookupMethod closed.registry.table ordered.table known selected
    exact (congrArg (· == "<clinit>") named).trans (by decide)
  exact (reentry.serves_prepare stages closed bounded linked arguments runs).of_related
    fun _ serves => serves.of_ordered

theorem serves_begin (thread : Ref) :
    Moves (Serves plain) (begin reentry thread) machine fun _ _ => True := by
  have starts : Moves (Serves plain) (launch reentry thread) machine fun _ _ => True := by
    rw [launch]
    refine (calm_classOf closed thread).compose (Serves plain) (fun _ _ calm => calm.serves) ?_
    intro cls first found known
    refine Moves.get_bind ?_
    dsimp only
    split
    · exact (calm_raise found.closed _ _).of_related fun _ calm => calm.serves
    · next run selected =>
        have prepares : Moves (Serves plain) (reentry.prepare run [.ref (some thread)]) first
            fun _ _ => True :=
          serves_prepareRun stages found.closed (found.config ▸ bounded) known selected _
        refine (moves_ofHost prepares).compose Retains (fun _ _ served => served) ?_
        intro id second prepared _
        refine (calm_setExecution prepared.closed thread id).compose Retains
          (fun _ _ calm => calm.retains) ?_
        intro _ third named _
        have owned := retains_adopt named.closed thread id
        exact Moves.modify_bind owned (Moves.pure owned.closed.calm_refl.retains trivial)
  refine Moves.get_bind ?_
  split
  · have refused : Moves Calm (raise .illegalThreadStateException none : Guest PUnit) machine
        fun _ _ => False := calm_raise closed _ _
    exact Moves.never_bind (refused.of_related fun _ calm => calm.serves)
  · exact starts

theorem serves_run (native : ThreadNative) (arguments : NativeArgs) :
    Moves (Serves plain) (native.run reentry arguments) machine fun _ _ => True := by
  cases native with
  | start =>
      refine (calm_nonNull closed _ "this").compose (Serves plain) (fun _ _ calm => calm.serves) ?_
      intro thread after calm _
      exact serves_begin stages calm.closed (calm.config ▸ bounded) thread
  | isAlive =>
      refine (calm_nonNull closed _ "this").compose (Serves plain) (fun _ _ calm => calm.serves) ?_
      intro thread after calm _
      exact Moves.get_bind (Moves.pure calm.closed.calm_refl.serves trivial)
  | sleep => exact (calm_pause closed _).of_related fun _ calm => calm.serves
  | yield =>
      have asked : machine.Calm { machine with yieldRequested := true } :=
        ⟨⟨.refl _, ⟨closed.registry, closed.known, closed.heap⟩, .refl _, rfl, rfl, rfl⟩, .refl _⟩
      have moves : Moves Calm (do
          modify fun machine => { machine with yieldRequested := true }
          pure .void : Guest Value) machine fun _ _ => True :=
        Moves.modify_bind asked (Moves.pure asked.closed.calm_refl trivial)
      exact moves.of_related fun _ calm => calm.serves
  | currentThread => exact (calm_current closed).of_related fun _ calm => calm.serves

end ThreadNative

/-! ## Calls -/

section

open Guest

variable {plain : Prop} {reentry : Reentry} (stages : reentry.Stages) {machine : Machine}
  (closed : machine.Closed)
  (bounded : machine.config.stackSlots ≤ FrameContext.encodablePositions)

include stages closed bounded

theorem Builtin.serves_run (builtin : Builtin) (arguments : NativeArgs) :
    Moves (Serves plain) (builtin.run reentry arguments) machine fun _ _ => True := by
  have calm : ∀ {step : Guest Value}, Moves Calm step machine (fun _ _ => True) →
      Moves (Serves plain) step machine fun _ _ => True :=
    fun moves => moves.of_related fun _ calm => calm.serves
  cases builtin with
  | object native => exact calm (native.calm_run closed arguments)
  | string native => exact calm (native.calm_run closed arguments)
  | cls native => exact calm (native.calm_run closed arguments)
  | system native => exact calm (native.calm_run closed arguments)
  | thread native => exact native.serves_run stages closed bounded arguments
  | printStream native => exact calm (native.calm_run closed arguments)
  | _ => exact calm (Moves.pure closed.calm_refl trivial)

theorem Native.serves_run (native : Native) {current : MethodId}
    (busy : machine.exec.method = some current) (arguments : NativeArgs) :
    Moves (Serves plain) (native.run reentry arguments) machine fun _ _ => True := by
  cases native with
  | builtin own => exact own.serves_run stages closed bounded arguments
  | host action =>
      exact ((action arguments).calm_run stages closed busy).of_related fun _ calm => calm.serves

end

namespace Guest

variable {machine : Machine} (closed : machine.Closed)

include closed

theorem calm_bindNative (id : MethodId) :
    Moves Calm (bindNative id) machine fun _ _ => True := by
  refine Moves.get_bind ?_
  dsimp only
  split
  · exact Moves.pure closed.calm_refl trivial
  · split
    · next native _ =>
        have bound := closed.calm_modifyMethod id
          (show ∀ method : Method, { method with native := some native }.bodiless =
            method.bodiless from fun _ => rfl)
        exact Moves.modify_bind bound (Moves.pure bound.closed.calm_refl trivial)
    · exact calm_raise closed _ _

variable {plain : Prop} {reentry : Reentry} (stages : reentry.Stages)
  (bounded : machine.config.stackSlots ≤ FrameContext.encodablePositions)
  {current : MethodId} (busy : machine.exec.method = some current)
  {id : MethodId} (linked : machine.registry.HasMethod id)
  (offers : machine.exec.Offers (machine.method id).frameArgSlots.toNat)

include stages bounded busy linked offers

/-- A native takes its arguments off the frame that calls it, and nothing below. -/
theorem extends_callNative :
    Moves (Extends plain) (callNative reentry id) machine fun _ _ => True := by
  refine (calm_bindNative closed id).calm_bind_extends ?_
  intro native first bound _
  refine Moves.get_bind ?_
  dsimp only
  split
  · exact (calm_fault bound.closed _).calm_deepens.deepens_extends
  · have serves : Moves (Serves plain) _ first fun _ _ => True :=
      native.serves_run stages bound.closed (bound.config ▸ bounded)
        (bound.exec.method.trans busy)
        ⟨first.exec.stack.rawSlots (first.exec.stack.sp - (first.method id).frameArgSlots.toNat)
          (first.method id).frameArgSlots.toNat⟩
    refine serves.compose (Deepens plain) (fun _ _ served => served.extends) ?_
    intro value last served _
    have drops : last.Deepens plain (last.modifyStack fun stack => stack.setSp
        (first.exec.stack.sp - (first.method id).frameArgSlots.toNat)) := by
      refine deepens_of_keeps served.closed rfl rfl rfl (Stack.limit_setSp _ _) ?_
      intro _ _ _
      apply Stack.keeps_setSp
      have above := bound.offers offers current (bound.exec.method.trans busy)
      rw [served.exec.startSp, bound.frameArgSlots linked]
      exact Nat.le_sub_of_add_le above
    exact Moves.modify_bind drops (Moves.pure drops.closed.calm_refl.deepens trivial)

/-- A call whose arguments are operands of the current frame leaves that frame. -/
theorem extends_invoke (ordinary : plain → (machine.method id).isInitializer = false)
    (callerPc returnPc : UInt32) :
    Moves (Extends plain) (invoke reentry id callerPc returnPc) machine fun _ _ => True := by
  cases native : (machine.method id).isNative with
  | false =>
      exact (deepens_invoke closed linked native offers ordinary reentry callerPc
        returnPc).deepens_extends
  | true =>
      refine Moves.get_bind ?_
      dsimp only
      split
      · exact (calm_raise closed _ _).calm_deepens.deepens_extends
      · refine (calm_takeLock closed _).calm_bind_extends ?_
        intro taken first calm _
        split
        · exact Moves.pure calm.closed.calm_refl.extends trivial
        · have calls : Moves (Extends plain) (callNative reentry id) first fun _ _ => True :=
            extends_callNative calm.closed stages (calm.config ▸ bounded)
              (calm.exec.method.trans busy) (calm.grows.hasMethod linked)
              (by rw [calm.frameArgSlots linked]; exact calm.offers offers)
          refine (moves_onThrow calls ?_).compose (Deepens plain) (fun _ _ extended => extended) ?_
          · exact fun _ extended =>
              extended.trans_deepens (calm_releaseLock extended.closed _).deepens
          · intro value last extended _
            have released := calm_releaseLock extended.closed (callLock? machine id)
            have pushes : (releaseLock (callLock? machine id) last).Deepens plain
                ((releaseLock (callLock? machine id) last).modifyExec fun exec =>
                  { exec with stack := exec.stack.pushValue value, pc := returnPc }) := by
              refine deepens_of_keeps released.closed rfl rfl rfl (Stack.limit_pushValue _ value) ?_
              exact fun _ _ room => Stack.keeps_pushValue room value
            have moved := released.deepens.trans pushes
            exact Moves.modify_bind moved (Moves.pure moved.closed.calm_refl.deepens trivial)

end Guest

end Jvm
