import Jvm.Proofs.Locking.Entering

/-!
# New executions, natives and locks

A thread that starts gets an execution of its own, under an id that nobody has. Its method is
called on that execution, while the one that starts it waits and keeps all its locks. Other
natives leave frames and locks as they are. One that is synchronized runs under its lock,
which is released whether it returns or throws.
-/

namespace Jvm

open Machine

namespace Machine

variable {before after : Machine}

/-- Whether a new execution gets an id that nobody has, and may take locks. -/
structure Welcomes (machine : Machine) : Prop where
  fresh : ∀ exec ∈ machine.executions, exec.id ≠ machine.nextExec
  roomy : machine.Roomy machine.nextExec

section

variable (welcomes : before.Welcomes)

include welcomes

theorem Welcomes.of_executions (id : after.exec.id = before.exec.id)
    (parked : after.parked = before.parked) (next : after.nextExec = before.nextExec)
    (roomy : after.Roomy before.nextExec) : after.Welcomes where
  fresh exec member := by
    rw [next]
    rcases List.mem_cons.mp member with rfl | waits
    · rw [id]
      exact welcomes.fresh before.exec (.head _)
    · exact welcomes.fresh exec (.tail _ (parked ▸ waits))
  roomy := next ▸ roomy

theorem Welcomes.of_idles (idles : before.Idles after) : after.Welcomes :=
  welcomes.of_executions idles.id idles.parked idles.next (welcomes.roomy.of_idles idles)

theorem Welcomes.of_stays (stays : before.Stays after)
    (monitors : ∀ id, (after.cls id).monitor = (before.cls id).monitor) : after.Welcomes :=
  welcomes.of_executions stays.exec.id stays.parked stays.nextExec
    (welcomes.roomy.of_monitors monitors)

/-- Nobody else takes a lock for an execution that is yet to come. -/
theorem Welcomes.of_acquires {lock : Option Lock} (calm : before.Calm after)
    (acquires : before.Acquires lock after) : after.Welcomes :=
  welcomes.of_executions calm.exec.id calm.parked calm.nextExec
    (acquires.roomy (welcomes.fresh before.exec (.head _)).symm welcomes.roomy)

end

/-- Executions may change places, and be gone; those without frames need no locks. -/
theorem Guarded.of_executions (guarded : before.Guarded)
    (registry : after.registry = before.registry) (heap : after.heap.Accounted)
    (sound : after.Sound) (distinct : (after.executions.map (·.id)).Nodup)
    (known : ∀ exec ∈ after.executions, exec.methods = [] ∨
      ∃ old ∈ before.executions, exec.id = old.id ∧ exec.methods = old.methods) :
    after.Guarded := by
  refine ⟨sound, heap, distinct, ?_⟩
  rw [registry]
  intro fit unlocked exec member id
  rw [nesting, cls, registry, ← cls]
  rcases known exec member with none | ⟨old, found, same, methods⟩
  · rw [none]
    exact Nat.zero_le _
  · rw [same, methods]
    exact guarded.held fit unlocked old found id

/-! ## An execution for a thread -/

section

variable {machine : Machine} (guarded : machine.Guarded)

include guarded

/-- No other execution has the id of the running one. -/
theorem Guarded.others_eq : machine.others = machine.parked := by
  refine List.filter_eq_self.mpr fun exec member => decide_eq_true fun same => ?_
  have apart : machine.exec.id ∉ machine.parked.map (·.id) :=
    (List.nodup_cons.mp guarded.distinct).1
  exact apart (List.mem_map.mpr ⟨exec, member, same⟩)

theorem Guarded.executions_spawn : machine.spawn.executions =
    Execution.idle machine.nextExec machine.config.stackSlots :: machine.executions := by
  have same : machine.spawn.executions =
      Execution.idle machine.nextExec machine.config.stackSlots :: machine.exec ::
        machine.others := rfl
  rw [same, guarded.others_eq]
  rfl

theorem Guarded.spawn (welcomes : machine.Welcomes) : machine.spawn.Guarded := by
  have executions := guarded.executions_spawn
  have follows : machine.Follows False machine.spawn := by
    refine guarded.sound.follows_of_executions rfl rfl rfl rfl ?_ ?_
    · rw [executions]
      intro exec member
      rcases List.mem_cons.mp member with rfl | old
      · exact .inr ⟨_, rfl⟩
      · exact .inl old
    · have same : machine.spawn.methods = machine.exec.methods ++
          machine.others.flatMap Execution.methods := rfl
      rw [same, guarded.others_eq, ← Machine.methods_eq]
  refine guarded.of_executions rfl guarded.accounted follows.sound ?_ ?_
  · rw [executions, List.map_cons]
    refine List.nodup_cons.mpr ⟨fun member => ?_, guarded.distinct⟩
    obtain ⟨exec, found, same⟩ := List.mem_map.mp member
    exact welcomes.fresh exec found same
  · rw [executions]
    intro exec member
    rcases List.mem_cons.mp member with rfl | old
    · exact .inl rfl
    · exact .inr ⟨exec, old, rfl, rfl⟩

/-- The execution that has started another one has kept its frames and locks, and those that
wait have. -/
theorem Guarded.minds_of_spawn {after final : Machine} (heeds : machine.spawn.Heeds after)
    (registry : final.registry = after.registry) (heap : final.heap = after.heap)
    (sound : final.Sound) (exec : final.exec = machine.exec)
    (fewer : final.executions.Subperm after.executions)
    (waits : ∀ exec ∈ machine.parked, exec ∈ final.parked) : machine.Minds final := by
  have there : ∀ exec ∈ machine.executions, exec ∈ machine.spawn.parked := by
    have parked : machine.spawn.parked = machine.exec :: machine.others := rfl
    rw [parked, guarded.others_eq]
    exact fun _ member => member
  have monitors : ∀ lock, final.monitor? lock = after.monitor? lock := by
    intro lock
    cases lock with
    | object ref => rw [monitor?, heap, ← monitor?]
    | cls id => rw [monitor?, cls, registry, ← cls, ← monitor?]
  have spared : ∀ exec ∈ machine.executions, machine.Spares final exec.id := by
    intro exec member lock monitor lasts found held
    rw [monitors]
    exact heeds.spares exec (there exec member) lock monitor lasts found held
  have distinct : (final.executions.map (·.id)).Nodup := by
    obtain ⟨executions, perm, sublist⟩ := fewer
    exact (perm.map (·.id)).nodup_iff.mp ((sublist.map (·.id)).nodup heeds.guarded.distinct)
  refine ⟨⟨?_, ?_, ?_, ?_, ?_, ?_⟩, spared _ (.head _), ?_⟩
  · rw [registry]
    exact heeds.grows
  · exact heeds.guarded.of_executions registry (heap ▸ heeds.guarded.accounted) sound distinct
      fun exec member => .inr ⟨exec, fewer.subset member, rfl, rfl⟩
  · rw [exec]
  · exact fun exec member => ⟨exec, waits exec member, rfl⟩
  · intro lock lasts
    have later := heeds.lasts lock lasts
    cases lock with
    | object ref =>
        obtain ⟨id, known, mirror⟩ := later
        exact ⟨id, by rw [registry]; exact known, by rw [cls, registry]; exact mirror⟩
    | cls id =>
        change final.registry.Has id
        rw [registry]
        exact later
  · exact fun exec member => spared exec (.tail _ member)
  · exact fun _ => congrArg Execution.methods exec

end

end Machine

/-- Whether the calls that natives may make heed locks. -/
def Reentry.Heeds (reentry : Reentry) : Prop :=
  ∀ (machine : Machine) (id : MethodId) (arguments : List Value), machine.Guarded →
    machine.Roomy machine.exec.id → machine.registry.HasMethod id →
    Moves Machine.Heeds (reentry.enter id arguments) machine fun _ _ => True

namespace Moves

variable {ε α β : Type} {machine : Machine} {returned : α → Machine → Prop}

theorem idles_minds {step : EStateM ε Machine α} (moves : Moves Idles step machine returned) :
    Moves Minds step machine returned :=
  moves.of_related fun _ idles => idles.toMinds

/-- A step without locks before one that leaves the running execution its own. -/
theorem idles_bind_minds {step : EStateM ε Machine β} {next : β → EStateM ε Machine α}
    {between : β → Machine → Prop} (first : Moves Idles step machine between)
    (rest : ∀ value after, machine.Idles after → between value after →
      Moves Minds (next value) after returned) :
    Moves Minds (step >>= next) machine returned :=
  first.compose Minds (fun _ _ idles => idles.toMinds) rest

end Moves

section

variable {reentry : Reentry} (stages : reentry.Stages) (heeds : reentry.Heeds)
  {machine : Machine} (guarded : machine.Guarded)

include stages heeds guarded

theorem Reentry.minds_prepare (welcomes : machine.Welcomes) {id : MethodId}
    (linked : machine.registry.HasMethod id) (arguments : List Value) :
    Moves Minds (reentry.prepare id arguments) machine fun _ _ => True := by
  have staged : Moves (Settles False) (reentry.enter id arguments) machine.spawn fun _ _ => True :=
    stages.settles False machine.spawn id arguments
      ⟨guarded.closed.registry, guarded.closed.known, guarded.closed.heap⟩ linked nofun
  have enters := heeds machine.spawn id arguments (guarded.spawn welcomes) welcomes.roomy linked
  have serves : Moves (Serves False) (reentry.prepare id arguments) machine fun _ _ => True :=
    reentry.serves_prepare stages guarded.closed guarded.sound.bounded linked arguments nofun
  have sound : ∀ final, machine.Serves False final → final.Sound := by
    intro final served
    have follows : machine.Follows False final := guarded.sound.follows_of_extends served.extends
    exact follows.sound
  cases ran : reentry.enter id arguments machine.spawn with
  | error error after =>
      have heeded := ends_of_error ran enters
      have settles := ends_of_error ran staged
      have failed := reentry.prepare_eq id arguments machine
      simp only [ran, switchBack_of_spawn settles] at failed
      have served := ends_of_error failed serves
      refine Moves.of_error failed
        (guarded.minds_of_spawn heeded rfl rfl (sound _ served) rfl ?_ ?_)
      · have executions : after.executions = after.exec :: machine.exec :: machine.others :=
          congrArg _ settles.parked
        rw [executions]
        exact (List.sublist_cons_self _ _).subperm
      · intro exec member
        rw [guarded.others_eq]
        exact member
  | ok entered after =>
      have heeded := (ends_of_ok ran enters).1
      have settles := (ends_of_ok ran staged).1
      have executions : after.executions = after.exec :: machine.exec :: machine.others :=
        congrArg _ settles.parked
      have ended := reentry.prepare_eq id arguments machine
      cases entered with
      | some value =>
          simp only [ran, switchBack_of_spawn settles] at ended
          refine Moves.of_ok ended (guarded.minds_of_spawn heeded rfl rfl
            (sound _ (ends_of_ok ended serves).1) rfl ?_ ?_) trivial
          · rw [executions]
            exact (List.sublist_cons_self _ _).subperm
          · intro exec member
            rw [guarded.others_eq]
            exact member
      | none =>
          simp only [ran, switchBack_of_spawn settles] at ended
          have named : after.exec.id = machine.nextExec := settles.id
          refine Moves.of_ok ended (guarded.minds_of_spawn heeded rfl rfl
            (sound _ (ends_of_ok ended serves).1) rfl ?_ ?_) trivial
          · rw [executions]
            refine (List.Perm.swap _ _ _).subperm.trans (List.Sublist.subperm ?_)
            exact (List.filter_sublist.cons_cons machine.exec).cons_cons after.exec
          · intro exec member
            refine .tail _ (List.mem_filter.mpr ⟨?_, decide_eq_true ?_⟩)
            · rw [guarded.others_eq]
              exact member
            · rw [named]
              exact welcomes.fresh exec (.tail _ member)

end

/-! ## Natives -/

open Machine Guest

namespace ThreadNative

variable {machine : Machine} (guarded : machine.Guarded)

include guarded

/-- An execution keeps its frames and locks when it is given the thread that it runs. -/
theorem minds_adopt (thread : Ref) (id : ExecId) :
    machine.Minds { machine with
      parked := machine.parked.map fun exec =>
        if exec.id = id then { exec with threadObject := some thread } else exec
      guestThreads := machine.guestThreads ++ [id] } := by
  have same : ∀ exec : Execution, (if exec.id = id then
      { exec with threadObject := some thread } else exec).id = exec.id := by
    intro exec
    split <;> rfl
  have serves : machine.Serves False _ :=
    guarded.closed.calm_refl.serves.trans_retains (retains_adopt guarded.closed thread id)
  have follows : machine.Follows False _ := guarded.sound.follows_of_extends serves.extends
  refine ⟨⟨.refl _, ?_, rfl, ?_, fun _ there => there, fun _ _ => .refl _ _⟩, .refl _ _, fun _ => rfl⟩
  · refine guarded.of_executions rfl guarded.accounted follows.sound ?_ ?_
    · have ids : (machine.parked.map fun exec => if exec.id = id then
          { exec with threadObject := some thread } else exec).map (·.id) =
          machine.parked.map (·.id) := by
        rw [List.map_map]
        exact List.map_congr_left fun exec _ => same exec
      rw [executions, List.map_cons, ids]
      exact guarded.distinct
    · intro exec member
      rcases List.mem_cons.mp member with rfl | waits
      · exact .inr ⟨machine.exec, .head _, rfl, rfl⟩
      · obtain ⟨old, kept, rfl⟩ := List.mem_map.mp waits
        refine .inr ⟨old, .tail _ kept, same old, ?_⟩
        split <;> rfl
  · exact fun exec member => ⟨_, List.mem_map_of_mem member, same exec⟩

variable {reentry : Reentry} (stages : reentry.Stages) (heeds : reentry.Heeds)
  (welcomes : machine.Welcomes)

include stages heeds welcomes

/-- Whoever starts a thread keeps its frames and locks. -/
theorem minds_begin (thread : Ref) :
    Moves Minds (begin reentry thread) machine fun _ _ => True := by
  have starts : Moves Minds (launch reentry thread) machine fun _ _ => True := by
    rw [launch]
    refine Moves.idles_bind_minds (Moves.idles_of_calm guarded (paces_classOf thread).walks
      (calm_classOf guarded.closed thread)) ?_
    intro cls first idles known
    have found := idles.guarded
    refine Moves.get_bind ?_
    dsimp only
    split
    · exact (Moves.idles_of_calm found (paces_raise _ _).walks
        (calm_raise found.closed _ _)).idles_minds
    · next run selected =>
        have linked := ClassTable.hasMethod_of_lookupMethod found.closed.registry.table known selected
        refine (moves_ofHost (Reentry.minds_prepare stages heeds found (welcomes.of_idles idles)
          linked _)).bind ?_
        intro id second minds _
        refine Moves.idles_bind_minds (Moves.idles_of_calm minds.guarded
          (paces_setExecution thread id).walks (calm_setExecution minds.guarded.closed thread id)) ?_
        intro _ third named _
        have adopts := minds_adopt named.guarded thread id
        exact Moves.modify_bind adopts (Moves.pure adopts.guarded.idles_refl.toMinds trivial)
  refine Moves.get_bind ?_
  split
  · have refused : Moves Idles (raise .illegalThreadStateException none : Guest PUnit) machine
        fun _ _ => False :=
      Moves.idles_of_calm guarded (paces_raise _ _).walks (calm_raise guarded.closed _ _)
    exact Moves.never_bind refused.idles_minds
  · exact starts

theorem minds_start (arguments : NativeArgs) :
    Moves Minds (run reentry .start arguments) machine fun _ _ => True := by
  refine Moves.idles_bind_minds (Moves.idles_of_calm guarded (paces_nonNull _ _).walks
    (calm_nonNull guarded.closed _ "this")) ?_
  intro thread after idles _
  exact minds_begin idles.guarded stages heeds (welcomes.of_idles idles) thread

end ThreadNative

namespace HostAction

variable {reentry : Reentry} (stages : reentry.Stages) (action : HostAction) {machine : Machine}
  {current : MethodId} (busy : machine.exec.method = some current)

include stages busy

/-- A busy execution cannot call, so the script of an embedder touches no frames. -/
theorem quiet_run : Moves (ChangesIn .quiet) (action.run reentry) machine fun _ _ => True := by
  have still : ∀ {before after : Machine}, ChangesIn .quiet before after →
      before.exec.method = some current → after.exec.method = some current :=
    fun changes busy => (changes.sameFrames not_false).exec.method.trans busy
  induction action generalizing machine with
  | finish value => exact Moves.pure .refl trivial
  | raise exception => exact Moves.throw .refl
  | fail error => exact (paces_fatal error).walks machine
  | newString text next ih =>
      refine (moves_request ((Host.paces_ofGuest (paces_newString text)).walks machine)).bind ?_
      exact fun made after changes _ => ih made (still changes busy)
  | invokeStatic owner name descriptor arguments next ih =>
      have calls : Moves (ChangesIn .quiet) (do
          let method ← Host.findStatic owner name descriptor
          reentry.call method arguments) machine fun _ _ => True := by
        refine ((Host.paces_findStatic owner name descriptor).walks machine).bind ?_
        intro method after changes _
        obtain ⟨error, refused⟩ := stages.busy after method current arguments (still changes busy)
        have ran : reentry.call method arguments after = .error error after := by
          simp only [Reentry.call, bind, EStateM.bind, refused]
        exact Moves.of_error ran .refl
      refine (moves_request calls).bind ?_
      exact fun result after changes _ => ih result (still changes busy)
  | depth exec next ih => exact Moves.get_bind (ih _ busy)
  | terminate next ih =>
      exact Moves.modify_bind (.single (.aside ⟨⟨rfl, rfl, rfl⟩, rfl⟩ rfl rfl rfl)) (ih busy)

theorem idles_run (guarded : machine.Guarded) :
    Moves Idles (action.run reentry) machine fun _ _ => True :=
  Ends.mono (Ends.and (action.calm_run stages guarded.closed busy) (action.quiet_run stages busy))
    (fun _ _ ended => ⟨guarded.idles_of_calm ended.2.1 ended.1.1, trivial⟩)
    fun _ _ ended => guarded.idles_of_calm ended.2 ended.1

end HostAction

section

variable {reentry : Reentry} (stages : reentry.Stages) (heeds : reentry.Heeds)
  {machine : Machine} (guarded : machine.Guarded) (welcomes : machine.Welcomes)

include stages heeds guarded welcomes

theorem Builtin.minds_run (builtin : Builtin) (arguments : NativeArgs) :
    Moves Minds (builtin.run reentry arguments) machine fun _ _ => True := by
  by_cases starts : builtin = .thread .start
  · subst starts
    exact ThreadNative.minds_start guarded stages heeds welcomes arguments
  · have serves : Moves (Serves False) (builtin.run reentry arguments) machine fun _ _ => True :=
      builtin.serves_run stages guarded.closed guarded.sound.bounded arguments
    have walks : WalksIn .quiet (builtin.run reentry arguments) :=
      (builtin.paces_run_of_ne starts arguments).walks
    exact Ends.mono (Ends.and serves (walks machine))
      (fun _ _ ended => ⟨guarded.minds_of_extends ended.2.1 ended.1.1.extends, trivial⟩)
      fun _ _ ended => guarded.minds_of_extends ended.2 ended.1.extends

theorem Native.minds_run (native : Native) {current : MethodId}
    (busy : machine.exec.method = some current) (arguments : NativeArgs) :
    Moves Minds (native.run reentry arguments) machine fun _ _ => True := by
  cases native with
  | builtin own => exact own.minds_run stages heeds guarded welcomes arguments
  | host action => exact ((action arguments).idles_run stages busy guarded).idles_minds

end

namespace Guest

variable {reentry : Reentry} (stages : reentry.Stages) (heeds : reentry.Heeds)
  {machine : Machine} (guarded : machine.Guarded) {current : MethodId}
  (busy : machine.exec.method = some current) {id : MethodId}
  (linked : machine.registry.HasMethod id)
  (offers : machine.exec.Offers (machine.method id).frameArgSlots.toNat)

include stages heeds guarded busy linked offers

/-- A native takes its arguments off the frame that calls it, and leaves all else. -/
theorem minds_callNative (welcomes : machine.Welcomes) :
    Moves Minds (callNative reentry id) machine fun _ _ => True := by
  refine Moves.idles_bind_minds (Moves.idles_calm guarded (paces_bindNative id).walks
    (calm_bindNative guarded.closed id)) ?_
  rintro native first idles ⟨-, bound⟩
  have later := idles.guarded
  refine Moves.get_bind ?_
  dsimp only
  split
  · exact (Moves.idles_of_calm later (paces_fault _).walks (calm_fault later.closed _)).idles_minds
  · have busyToo := bound.exec.method.trans busy
    have runs := native.minds_run stages heeds later (welcomes.of_idles idles) busyToo
      ⟨first.exec.stack.rawSlots (first.exec.stack.sp - (first.method id).frameArgSlots.toNat)
        (first.method id).frameArgSlots.toNat⟩
    have serves : Moves (Serves False) _ first fun _ _ => True :=
      native.serves_run stages later.closed later.sound.bounded busyToo
        ⟨first.exec.stack.rawSlots (first.exec.stack.sp - (first.method id).frameArgSlots.toNat)
          (first.method id).frameArgSlots.toNat⟩
    rw [Moves, ends_bind]
    refine Ends.mono (Ends.and runs serves) ?_ fun _ _ ended => ended.1
    rintro value last ⟨⟨minds, -⟩, served, -⟩
    have drops : last.Deepens False (last.modifyStack fun stack => stack.setSp
        (first.exec.stack.sp - (first.method id).frameArgSlots.toNat)) := by
      refine deepens_of_keeps served.closed rfl rfl rfl (Stack.limit_setSp _ _) ?_
      intro _ _ _
      apply Stack.keeps_setSp
      have above := bound.offers offers current busyToo
      rw [served.exec.startSp, bound.frameArgSlots linked]
      exact Nat.le_sub_of_add_le above
    have aside : ChangesIn .quiet last (last.modifyStack fun stack => stack.setSp
        (first.exec.stack.sp - (first.method id).frameArgSlots.toNat)) :=
      .single (.aside ⟨⟨rfl, rfl, rfl⟩, rfl⟩ rfl rfl rfl)
    exact Ends.of_ok rfl ⟨minds.trans (minds.guarded.minds_of_extends aside drops.extends), trivial⟩

/-- A synchronized native runs under its lock, and has released it when it is over. -/
theorem heeds_invoke_native (native : (machine.method id).isNative = true)
    (roomy : machine.Roomy machine.exec.id) (welcomes : machine.Welcomes)
    (callerPc returnPc : UInt32) :
    Moves Heeds (invoke reentry id callerPc returnPc) machine fun _ _ => True := by
  refine Moves.get_bind ?_
  dsimp only
  split
  · exact (Moves.idles_of_calm guarded (paces_raise _ _).walks
      (calm_raise guarded.closed _ _)).idles_heeds
  · rw [Moves, ends_bind]
    refine (heeds_takeLock guarded linked.1 roomy).mono ?_ fun _ _ never => never.elim
    rintro taken first ⟨heeds', calm, -, acquires, covers⟩
    cases taken with
    | false => exact ends_pure.mpr ⟨heeds', trivial⟩
    | true =>
        have later := heeds'.guarded
        rw [Bool.not_true, if_neg Bool.false_ne_true, ends_bind, ends_onThrow]
        have calls := minds_callNative stages heeds later (calm.exec.method.trans busy)
          (calm.grows.hasMethod linked)
          (by rw [calm.frameArgSlots linked]; exact calm.offers offers)
          (welcomes.of_acquires calm acquires)
        have releases : ∀ {last : Machine}, first.Minds last →
            first.Heeds (releaseLock (callLock? machine id) last) := by
          intro last minds
          have grows := calm.grows.trans minds.grows
          obtain ⟨held, takes⟩ := locks_callLock? linked.1 grows
          exact minds.toHeeds.trans (heeds_releaseLock minds.guarded (grows.has linked.1) held takes
            (later.covers_of_minds minds (calm.grows.has linked.1) (covers rfl)))
        refine Ends.mono calls ?_ fun _ _ minds => heeds'.trans (releases minds)
        rintro value last ⟨minds, -⟩
        rw [ends_bind, ends_modify, ends_pure]
        have released := releases minds
        have pushes : (releaseLock (callLock? machine id) last).Deepens False
            ((releaseLock (callLock? machine id) last).modifyExec fun exec =>
              { exec with stack := exec.stack.pushValue value, pc := returnPc }) := by
          refine deepens_of_keeps released.guarded.closed rfl rfl rfl
            (Stack.limit_pushValue _ value) ?_
          exact fun _ _ room => Stack.keeps_pushValue room value
        have aside : ChangesIn .quiet (releaseLock (callLock? machine id) last)
            ((releaseLock (callLock? machine id) last).modifyExec fun exec =>
              { exec with stack := exec.stack.pushValue value, pc := returnPc }) :=
          .single (.aside ⟨⟨rfl, rfl, rfl⟩, rfl⟩ rfl rfl rfl)
        have pushed := released.guarded.minds_of_extends aside pushes.extends
        exact ⟨(heeds'.trans released).trans pushed.toHeeds, trivial⟩

/-- A call heeds locks. -/
theorem heeds_invoke (roomy : machine.Roomy machine.exec.id) (welcomes : machine.Welcomes)
    (callerPc returnPc : UInt32) :
    Moves Heeds (invoke reentry id callerPc returnPc) machine fun _ _ => True := by
  cases native : (machine.method id).isNative with
  | false => exact heeds_invoke_interpreted guarded linked native offers roomy reentry callerPc returnPc
  | true => exact heeds_invoke_native stages heeds guarded busy linked offers native roomy welcomes callerPc returnPc

end Guest

end Jvm
