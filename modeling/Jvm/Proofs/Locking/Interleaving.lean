import Jvm.Proofs.Locking.Instructions

/-!
# Runs and locks

Executions take turns: one runs, the others wait. Whatever happens next, be it an instruction
or a call that is staged, the locks that last stay with those that wait, and all executions
still hold the locks of their frames. This takes that an id stands for one execution only,
and that nobody takes the lock of a class more often than can be counted.
-/

namespace Jvm.Host

open Machine

variable {machine : Machine} (guarded : machine.Guarded)

include guarded

/-! ## What follows an instruction -/

theorem idles_countStep : machine.Idles machine.countStep :=
  guarded.idles_of_calm (.single (.aside ⟨⟨rfl, rfl, rfl⟩, rfl⟩ rfl rfl rfl))
    (calm_countStep guarded.closed)

theorem idles_protectResult (value : Value) : machine.Idles (machine.protectResult value) := by
  have changes : ChangesIn .quiet machine (machine.protectResult value) := by
    rw [Machine.protectResult.eq_def]
    split
    · exact .single (.write (.of_objects rfl rfl rfl))
    · exact .refl
  exact guarded.idles_of_calm changes (calm_protectResult guarded.closed value)

theorem heeds_afterStep {ended : Except Throw Step} :
    Moves Heeds (afterStep ended) machine fun _ _ => True := by
  have counted := idles_countStep guarded
  have later := counted.guarded
  cases ended with
  | ok step =>
      cases step with
      | blocked => exact Moves.pure guarded.heeds_refl trivial
      | next =>
          refine Moves.modify_bind counted.toHeeds (Moves.get_bind ?_)
          split
          · have yielded : machine.countStep.Idles
                { machine.countStep with yieldRequested := false } :=
              later.idles_of_calm (.single (.aside ⟨⟨rfl, rfl, rfl⟩, rfl⟩ rfl rfl rfl))
                ⟨⟨.refl _, ⟨later.closed.registry, later.closed.known, later.closed.heap⟩,
                  .refl _, rfl, rfl, rfl⟩, .refl _⟩
            refine Moves.modify_bind yielded.toHeeds (Moves.get_bind ?_)
            split <;> exact Moves.pure yielded.guarded.heeds_refl trivial
          · exact Moves.pure later.heeds_refl trivial
      | returned value =>
          have kept := counted.trans (idles_protectResult later value)
          exact Moves.modify_bind kept.toHeeds (Moves.pure kept.guarded.heeds_refl trivial)
      | suspended => exact Moves.modify_bind counted.toHeeds (Moves.pure later.heeds_refl trivial)
  | error thrown =>
      cases thrown with
      | exception ref =>
          have stops : machine.countStep.Idles (machine.countStep.stopOnThrow ref).2 := by
            have changes : ShapedIn .quiet machine.countStep (machine.countStep.stopOnThrow ref).2 :=
              machine.countStep.shapes_stopOnThrow ref
            exact later.idles_of_calm changes.changes (Guest.calm_stopOnThrow later.closed ref)
          have asks : Moves Heeds (modifyGet fun machine => machine.stopOnThrow ref : Host Bool)
              machine.countStep fun _ _ => True := Moves.modifyGet stops.toHeeds trivial
          refine Moves.modify_bind counted.toHeeds (asks.bind ?_)
          intro stopped after asked _
          split
          · exact Moves.pure asked.guarded.heeds_refl trivial
          · refine (heeds_unwind asked.guarded ref).bind ?_
            exact fun _ _ unwound _ => Moves.pure unwound.guarded.heeds_refl trivial
      | fatal error =>
          have abandoned := counted.toHeeds.trans later.heeds_abandonExecution
          exact Moves.modify_bind abandoned (Moves.throw abandoned.guarded.heeds_refl)

theorem idles_clearPending : machine.Idles (machine.modifyHeap Heap.clearPending) :=
  guarded.idles_of_calm (.single (.write (.of_objects rfl rfl rfl)))
    (calm_clearPending guarded.closed)

/-- A step of an execution heeds locks, however it ends. -/
theorem heeds_runStep {reentry : Reentry} (stages : reentry.Stages) (heeds : reentry.Heeds)
    (roomy : machine.Roomy machine.exec.id) (welcomes : machine.Welcomes) (ready : machine.Ready) :
    Moves Heeds (runStep reentry) machine fun _ _ => True := by
  have cleared := idles_clearPending guarded
  refine Moves.modify_bind cleared.toHeeds (Moves.get_bind ?_)
  have same : (machine.modifyHeap Heap.clearPending).exec.pendingException =
      machine.exec.pendingException := rfl
  rw [same]
  cases pending : machine.exec.pendingException with
  | some ref =>
      have taken : (machine.modifyHeap Heap.clearPending).Idles
          ((machine.modifyHeap Heap.clearPending).modifyExec fun exec =>
            { exec with pendingException := none }) :=
        cleared.guarded.idles_of_calm (.single (.aside ⟨⟨rfl, rfl, rfl⟩, rfl⟩ rfl rfl rfl))
          (cleared.guarded.closed.calm_modifyExec ⟨rfl, rfl, rfl, rfl⟩)
      refine Moves.modify_bind taken.toHeeds ((heeds_unwind taken.guarded ref).bind ?_)
      exact fun _ _ unwound _ => Moves.pure unwound.guarded.heeds_refl trivial
  | none =>
      have steps := Guest.heeds_step cleared.guarded stages heeds (roomy.of_idles cleared)
        (welcomes.of_idles cleared) (ready pending)
      refine (moves_attempt steps).bind ?_
      exact fun _ _ stepped _ => heeds_afterStep stepped.guarded

/-! ## Staged calls -/

theorem heeds_settle {α : Type} (ended : Except Throw α) :
    Moves Heeds (settle ended) machine fun _ _ => True := by
  cases ended with
  | ok value => exact Moves.pure guarded.heeds_refl trivial
  | error thrown =>
      cases thrown with
      | exception ref =>
          refine (heeds_unwind guarded ref).bind ?_
          exact fun _ _ unwound _ => Moves.pure unwound.guarded.heeds_refl trivial
      | fatal error =>
          have resets := guarded.heeds_reset
          exact Moves.modify_bind resets (Moves.throw resets.guarded.heeds_refl)

/-- Arguments are pushed on a stack without frames. -/
theorem idles_pushArguments (idle : machine.exec.method = none) (arguments : List Value) :
    machine.Idles (machine.modifyStack fun stack => arguments.foldl Stack.pushValue stack) := by
  have limit : ∀ stack : Stack, (arguments.foldl Stack.pushValue stack).limit = stack.limit := by
    induction arguments with
    | nil => exact fun stack => rfl
    | cons value values ih => exact fun stack => (ih _).trans (stack.limit_pushValue value)
  refine guarded.idles_of_shrinks (.single (.aside ⟨⟨rfl, rfl, rfl⟩, rfl⟩ rfl rfl rfl))
    (shrinks_of_keeps guarded.closed rfl rfl rfl (limit _) ?_)
  intro id busy _
  cases idle.symm.trans busy

theorem idles_pinAll (values : List Value) : machine.Idles (pinAll values machine) := by
  have changes : ShapedIn .quiet machine (pinAll values machine) :=
    shapes_modifyHeap (.foldl Heap.pin .pin _ _)
  exact guarded.idles_of_calm changes.changes (calm_pinAll guarded.closed values)

theorem idles_unpinAll (values : List Value) : machine.Idles (unpinAll values machine) := by
  have changes : ShapedIn .quiet machine (unpinAll values machine) :=
    shapes_modifyHeap (.foldl Heap.unpin .unpin _ _)
  exact guarded.idles_of_calm changes.changes (calm_unpinAll guarded.closed values)

variable {id : MethodId} (idle : machine.exec.method = none)

include idle

theorem heeds_stageFrame (linked : machine.registry.HasMethod id)
    (interpreted : (machine.method id).isNative = false) (roomy : machine.Roomy machine.exec.id)
    (reentry : Reentry) : Moves Heeds (stageFrame reentry id) machine fun _ _ => True := by
  have offers : machine.exec.Offers (machine.method id).frameArgSlots.toNat := by
    intro caller busy
    cases idle.symm.trans busy
  refine (Guest.heeds_invoke_interpreted guarded linked interpreted offers roomy reentry 0 0).bind ?_
  intro step after heeds _
  have later := heeds.guarded
  have initializes : Moves Heeds (do
      let _ ← Guest.ensureInitialized id.owner 0 : Guest Unit) after fun _ _ => True := by
    refine (Guest.heeds_ensureInitialized later (heeds.grows.has linked.1) 0).bind ?_
    exact fun _ _ initialized _ => Moves.pure initialized.guarded.heeds_refl trivial
  cases step with
  | blocked =>
      exact Moves.get_bind (Moves.idles_of_calm later (Guest.paces_fault _).walks
        (Guest.calm_fault later.closed _)).idles_heeds
  | _ => exact initializes

/-- A native without an implementation is not run. -/
theorem heeds_stageNative (lacks : machine.lacksNative id = true) (reentry : Reentry)
    (complete : Host Value) (arguments : List Value) :
    Moves Heeds (stageNative reentry complete id arguments) machine fun _ _ => True := by
  have initializes : Moves Heeds (initializeClass complete id.owner) machine
      fun _ after => machine = after :=
    Moves.of_ok (initializeClass_of_lacksNative lacks complete) guarded.heeds_refl rfl
  refine initializes.bind ?_
  rintro - _ - rfl
  have pushed := idles_pushArguments guarded idle arguments
  refine Moves.modify_bind pushed.toHeeds ?_
  have calls : Moves Heeds (Guest.callNative reentry id)
      (machine.modifyStack fun stack => arguments.foldl Stack.pushValue stack) fun _ _ => True :=
    Moves.never_bind (Moves.idles_of_calm pushed.guarded (Guest.paces_bindNative id).walks
      (Guest.calm_bindNative_of_lacksNative pushed.guarded.closed lacks)).idles_heeds
  refine (moves_attempt calls).bind ?_
  intro ended last called _
  refine (heeds_settle called.guarded ended).bind ?_
  intro value after settled _
  have resets := settled.guarded.heeds_reset
  split
  · exact Moves.modify_bind resets (Moves.pure resets.guarded.heeds_refl trivial)
  · exact Moves.pure settled.guarded.heeds_refl trivial

theorem heeds_stageCall (linked : machine.registry.HasMethod id)
    (harmless : (machine.method id).isNative = true → machine.lacksNative id = true)
    (roomy : machine.Roomy machine.exec.id) (reentry : Reentry) (complete : Host Value)
    (arguments : List Value) :
    Moves Heeds (stageCall reentry complete id arguments) machine fun _ _ => True := by
  refine Moves.get_bind ?_
  cases native : (machine.method id).isNative with
  | true =>
      rw [if_pos rfl]
      exact heeds_stageNative guarded idle (harmless native) reentry complete arguments
  | false =>
      rw [if_neg Bool.false_ne_true]
      have pushed := idles_pushArguments guarded idle arguments
      refine Moves.modify_bind pushed.toHeeds ?_
      have stages := heeds_stageFrame pushed.guarded idle (pushed.grows.hasMethod linked) native
        (roomy.of_idles pushed) reentry
      refine (moves_attempt stages).bind ?_
      intro ended last staged _
      refine (heeds_settle staged.guarded ended).bind ?_
      exact fun _ _ settled _ => Moves.pure settled.guarded.heeds_refl trivial

omit idle in
/-- A call that is staged heeds locks, on whatever execution is running. -/
theorem heeds_enterMethod (linked : machine.registry.HasMethod id)
    (harmless : (machine.method id).isNative = true → machine.lacksNative id = true)
    (roomy : machine.Roomy machine.exec.id) (reentry : Reentry) (complete : Host Value)
    (arguments : List Value) :
    Moves Heeds (enterMethod reentry complete id arguments) machine fun _ _ => True := by
  refine Moves.get_bind ?_
  split
  · exact Moves.throw guarded.heeds_refl
  · split
    · exact Moves.throw guarded.heeds_refl
    · have resets := guarded.heeds_reset
      refine Moves.modify_bind resets ?_
      have pins := idles_pinAll resets.guarded arguments
      refine Moves.modify_bind pins.toHeeds ?_
      have room : (machine.modifyExec Execution.reset).Roomy machine.exec.id :=
        roomy.of_monitors fun _ => rfl
      have stages := heeds_stageCall pins.guarded rfl (pins.grows.hasMethod linked) harmless
        (room.of_idles pins) reentry complete arguments
      refine (moves_catching stages).bind ?_
      intro result last staged _
      have unpins := idles_unpinAll staged.guarded arguments
      refine Moves.modify_bind unpins.toHeeds ?_
      cases result with
      | ok value => exact Moves.pure unpins.guarded.heeds_refl trivial
      | error error => exact Moves.throw unpins.guarded.heeds_refl

end Jvm.Host

namespace Jvm.Reentry

open Machine

/-- Calls that natives make heed locks, however deep they nest. -/
theorem heeds_ofDepth (fuel depth : Nat) : (ofDepth fuel depth).interpreting.Heeds := by
  intro machine id arguments guarded roomy linked
  by_cases refuses : (machine.exec.isIdle && (machine.method id).isNative &&
      !machine.lacksNative id) = true
  · exact Moves.of_error (if_pos refuses) guarded.heeds_refl
  · have same : (ofDepth fuel depth).interpreting.enter id arguments machine =
        (ofDepth fuel depth).enter id arguments machine := if_neg refuses
    rw [Moves, ends_congr same]
    rcases Option.eq_none_or_eq_some machine.exec.method with idle | ⟨current, busy⟩
    · cases depth with
      | zero => exact Moves.throw guarded.heeds_refl
      | succ depth =>
          refine Host.heeds_enterMethod guarded linked (fun native => ?_) roomy _ _ arguments
          simpa [Execution.isIdle_of_host idle, native] using refuses
    · obtain ⟨error, refused⟩ := enter_of_busy fuel depth busy id arguments
      exact Moves.of_error refused guarded.heeds_refl

end Jvm.Reentry

namespace Jvm

open Machine

/-- The methods of a chain of frames do not depend on where the first of them goes on. -/
theorem Frame.map_method_chain (stack : Stack) (frame : Frame) (pc : UInt32) :
    (Frame.chain stack { frame with pc }).map (·.method) =
      (Frame.chain stack frame).map (·.method) := by
  have same : Frame.caller? stack { frame with pc } = Frame.caller? stack frame := rfl
  rw [Frame.chain.eq_def, Frame.chain.eq_def stack frame]
  split
  · next none =>
      rw [same] at none
      split
      · rfl
      · next found => cases none.symm.trans found
  · next caller calls =>
      rw [same] at calls
      split
      · next none => cases none.symm.trans calls
      · next other found =>
          cases found.symm.trans calls
          rfl

/-- The methods of an execution depend on its frames only. -/
theorem Execution.Untouched.methods {before after : Execution} (same : before.Untouched after) :
    after.methods = before.methods := by
  rw [Execution.methods, Execution.methods, frames, frames, same.stack, same.method, same.startSp]
  cases current : before.method with
  | none => rw [Frame.all.eq_def, Frame.all.eq_def]
  | some id =>
      rw [Frame.all.eq_def, Frame.all.eq_def]
      exact Frame.map_method_chain before.stack ⟨id, before.pc, before.startSp, before.stack.sp⟩ after.pc

namespace Machine

/-- Whether whatever happened has left those that wait the locks that they hold. -/
structure Respects (before after : Machine) : Prop where
  grows : before.registry.GrowsTo after.registry.toClassTable
  guarded : after.Guarded
  lasts : ∀ lock : Lock, lock.Lasts before → lock.Lasts after
  spares : ∀ exec ∈ before.parked, before.Spares after exec.id

variable {before after : Machine}

theorem Heeds.respects (heeds : before.Heeds after) : before.Respects after :=
  ⟨heeds.grows, heeds.guarded, heeds.lasts, heeds.spares⟩

theorem respects_of_moves {ε α : Type} {returned : α → Machine → Prop}
    {step : EStateM ε Machine α} (moves : Moves Heeds step before returned)
    (leaves : Jvm.Leaves step before after) : before.Respects after :=
  (moves.leaves leaves).respects

/-! ## Executions that change places -/

section

variable (guarded : before.Guarded)

include guarded

/-- Executions that go on with the frames that they had hold what they held. -/
theorem Guarded.respects_of_executions (registry : after.registry = before.registry)
    (objects : after.heap.objects = before.heap.objects) (accounted : after.heap.Accounted)
    (sound : after.Sound) (distinct : (after.executions.map (·.id)).Nodup)
    (known : ∀ exec ∈ after.executions, exec.methods = [] ∨
      ∃ old ∈ before.executions, exec.id = old.id ∧ exec.methods = old.methods) :
    before.Respects after := by
  refine ⟨?_, guarded.of_executions registry accounted sound distinct known, ?_, ?_⟩
  · rw [registry]
    exact .refl _
  · intro lock lasts
    cases lock with
    | object ref =>
        obtain ⟨id, linked, mirror⟩ := lasts
        exact ⟨id, by rw [registry]; exact linked, by rw [cls, registry]; exact mirror⟩
    | cls id =>
        change after.registry.Has id
        rw [registry]
        exact lasts
  · intro exec _ lock monitor _ found _
    cases lock with
    | object ref =>
        rw [monitor?, Heap.get?, objects]
        exact found
    | cls id =>
        rw [monitor?, cls, registry]
        exact found

/-- Some executions go on, and no others. -/
theorem Guarded.respects_of_fewer (registry : after.registry = before.registry)
    (heap : after.heap = before.heap) (follows : before.Follows False after)
    (fewer : after.executions.Subperm before.executions) : before.Respects after := by
  refine guarded.respects_of_executions registry (by rw [heap]) (heap ▸ guarded.accounted)
    follows.sound ?_ fun exec member => .inr ⟨exec, fewer.subset member, rfl, rfl⟩
  obtain ⟨executions, perm, sublist⟩ := fewer
  exact (perm.map (·.id)).nodup_iff.mp ((sublist.map (·.id)).nodup guarded.distinct)

/-- An execution without frames comes in, under an id that nobody else has. -/
theorem Guarded.respects_of_idle {id : ExecId} {rest : List Execution}
    (registry : after.registry = before.registry) (heap : after.heap = before.heap)
    (follows : before.Follows False after)
    (executions : after.executions = Execution.idle id before.config.stackSlots :: rest)
    (fewer : rest.Subperm before.executions) (fresh : ∀ exec ∈ rest, exec.id ≠ id) :
    before.Respects after := by
  refine guarded.respects_of_executions registry (by rw [heap]) (heap ▸ guarded.accounted)
    follows.sound ?_ ?_
  · rw [executions, List.map_cons]
    refine List.nodup_cons.mpr ⟨fun member => ?_, ?_⟩
    · obtain ⟨exec, found, same⟩ := List.mem_map.mp member
      exact fresh exec found same
    · obtain ⟨others, perm, sublist⟩ := fewer
      exact (perm.map (·.id)).nodup_iff.mp ((sublist.map (·.id)).nodup guarded.distinct)
  · rw [executions]
    intro exec member
    rcases List.mem_cons.mp member with rfl | old
    · exact .inl rfl
    · exact .inr ⟨exec, fewer.subset old, rfl, rfl⟩

theorem Guarded.respects_switchTo {id : ExecId} {exec : Execution} {left : Machine}
    (found : before.unpark id = some (exec, left)) : before.Respects (left.switchTo exec) := by
  have follows : before.Follows False (left.switchTo exec) := guarded.sound.follows_switchTo found
  obtain ⟨member, rfl, rfl⟩ := Sound.mem_of_unpark found
  exact guarded.respects_of_fewer rfl rfl follows
    (Sound.subperm_of_swap member List.filter_sublist)

theorem Guarded.respects_switchBack (id : ExecId) : before.Respects (before.switchBack id).2 := by
  have follows : before.Follows False _ := guarded.sound.follows_switchBack id
  rcases Sound.switchBack_cases before id with ⟨exec, member, rfl, same⟩ | ⟨absent, same⟩
  · rw [same] at follows ⊢
    exact guarded.respects_of_fewer rfl rfl follows
      ((Sound.subperm_of_mem member).trans .cons_self)
  · rw [same] at follows ⊢
    exact guarded.respects_of_idle rfl rfl follows rfl .cons_self absent

/-- The running execution waits, and another one runs. -/
theorem Guarded.respects_park {id : ExecId} (other : id ≠ before.exec.id) :
    before.Respects ((before.switchBack id).2.park (before.switchBack id).1) := by
  have follows : before.Follows False _ := guarded.sound.follows_park id
  rcases Sound.switchBack_cases before id with ⟨exec, member, rfl, same⟩ | ⟨absent, same⟩
  · rw [same] at follows ⊢
    exact guarded.respects_of_fewer rfl rfl follows
      (Sound.subperm_of_swap member List.filter_sublist)
  · rw [same] at follows ⊢
    refine guarded.respects_of_idle rfl rfl follows rfl
      (List.filter_sublist.cons_cons before.exec).subperm ?_
    intro exec member
    rcases List.mem_cons.mp member with rfl | waits
    · exact other.symm
    · exact absent exec (List.mem_of_mem_filter waits)

theorem Guarded.respects_of_adjusts (adjusts : before.Adjusts after)
    (accounted : after.heap.Accounted) : before.Respects after := by
  have follows : before.Follows False after :=
    guarded.sound.follows_of_calm (adjusts.calm guarded.closed)
  have executions : after.executions.map (·.id) = before.executions.map (·.id) := by
    rw [Machine.executions, Machine.executions, List.map_cons, List.map_cons, adjusts.exec.id,
      adjusts.parked]
  refine guarded.respects_of_executions adjusts.registry adjusts.objects accounted follows.sound
    (executions ▸ guarded.distinct) ?_
  intro exec member
  rcases List.mem_cons.mp member with rfl | waits
  · exact .inr ⟨before.exec, .head _, adjusts.exec.id, adjusts.exec.methods⟩
  · exact .inr ⟨exec, .tail _ (adjusts.parked ▸ waits), rfl, rfl⟩

end

/-! ## What may happen next -/

/-- What may happen next where an id stands for one execution only, and nobody takes the lock
of a class more often than can be counted. -/
structure Interleaves (bounds : Bounds) (before after : Machine) : Prop where
  evolves : Evolves bounds before after
  roomy : before.Roomy before.exec.id
  welcomes : before.Welcomes
  yields : ∀ id, after = (before.switchBack id).2.park (before.switchBack id).1 →
    id ≠ before.exec.id
  accounted : before.Adjusts after → after.heap.Accounted

section

variable {bounds : Bounds} (guarded : before.Guarded)

include guarded

/-- What walks past frames and locks and leaves frames alone leaves the locks to all. -/
theorem Guarded.respects_of_calm {ε α : Type} {returned : α → Machine → Prop}
    {step : EStateM ε Machine α} (walks : WalksIn .quiet step)
    (calm : Moves Calm step before returned) (leaves : Jvm.Leaves step before after) :
    before.Respects after :=
  respects_of_moves (Moves.idles_of_calm guarded walks calm).idles_heeds leaves

theorem Guarded.respects_step (roomy : before.Roomy before.exec.id) (welcomes : before.Welcomes)
    (ready : before.Ready)
    (alike : Host.runStep bounds.reentry before = Host.runStep bounds.reentry.interpreting before)
    (leaves : Jvm.Leaves (Host.runStep bounds.reentry) before after) : before.Respects after := by
  have stages := Reentry.stages_ofDepth bounds.slices bounds.nesting
  have heeds := Reentry.heeds_ofDepth bounds.slices bounds.nesting
  rw [Jvm.Leaves, alike] at leaves
  exact respects_of_moves
    (Host.heeds_runStep guarded stages heeds roomy welcomes ready) leaves

theorem Guarded.respects_stageInitializers {id : ClassId} (known : before.registry.Has id)
    (leaves : Jvm.Leaves (do Host.settle (← Host.attempt (Guest.ensureInitialized id 0)))
      before after) : before.Respects after := by
  have initializes : Moves Heeds (do Host.settle (← Host.attempt (Guest.ensureInitialized id 0)))
      before fun _ _ => True := by
    refine (Host.moves_attempt (Guest.heeds_ensureInitialized guarded known 0)).bind ?_
    exact fun ended _ heeds _ => Host.heeds_settle heeds.guarded ended
  exact respects_of_moves initializes leaves

theorem Guarded.respects_prepare (welcomes : before.Welcomes) {id : MethodId}
    {arguments : List Value} (linked : before.registry.HasMethod id) (defers : before.Defers id)
    (leaves : Jvm.Leaves (bounds.reentry.prepare id arguments) before after) :
    before.Respects after := by
  have stages := Reentry.stages_ofDepth bounds.slices bounds.nesting
  have heeds := Reentry.heeds_ofDepth bounds.slices bounds.nesting
  rw [Jvm.Leaves, ← Reentry.prepare_interpreting defers] at leaves
  have minds := Reentry.minds_prepare stages heeds guarded welcomes linked arguments
  exact (minds.leaves leaves).toHeeds.respects

theorem Guarded.respects_builtin (welcomes : before.Welcomes) {own : Builtin}
    {arguments : NativeArgs}
    (alike : own.run bounds.reentry arguments before =
      own.run bounds.reentry.interpreting arguments before)
    (leaves : Jvm.Leaves (own.run bounds.reentry arguments) before after) :
    before.Respects after := by
  have stages := Reentry.stages_ofDepth bounds.slices bounds.nesting
  have heeds := Reentry.heeds_ofDepth bounds.slices bounds.nesting
  rw [Jvm.Leaves, alike] at leaves
  have minds := own.minds_run stages heeds guarded welcomes arguments
  exact (minds.leaves leaves).toHeeds.respects

theorem Guarded.respects_operands {change : Stack → Stack} (idle : before.exec.method = none)
    (limit : (change before.exec.stack).limit = before.exec.stack.limit) :
    before.Respects (before.modifyStack change) := by
  have idles : before.Idles (before.modifyStack change) := by
    refine guarded.idles_of_shrinks (.single (.aside ⟨⟨rfl, rfl, rfl⟩, rfl⟩ rfl rfl rfl))
      (shrinks_of_keeps guarded.closed rfl rfl rfl limit ?_)
    intro id busy _
    cases idle.symm.trans busy
  exact idles.toHeeds.respects

theorem Guarded.respects_select {receiver : ClassId} {resolved : MethodId}
    (known : before.registry.Has receiver) (linked : before.registry.HasMethod resolved) :
    before.Respects
      { before with registry := (before.registry.resolveVirtual receiver resolved).2 } := by
  have changes : ShapedIn .quiet before
      { before with registry := (before.registry.resolveVirtual receiver resolved).2 } :=
    shapes_resolveVirtual receiver resolved
  obtain ⟨same, resolved, -⟩ := guarded.closed.registry.resolveVirtual known linked
  have calm := guarded.closed.calm_registry resolved (same ▸ .refl _)
    (Registry.rests_resolveVirtual guarded.closed.registry known linked)
  exact (guarded.idles_of_calm changes.changes calm).toHeeds.respects

/-- Whatever happens, those that wait keep the locks that they hold, and all executions hold
those of their frames. -/
theorem Guarded.respects (interleaves : Interleaves bounds before after) :
    before.Respects after := by
  have closed := guarded.closed
  obtain ⟨evolves, roomy, welcomes, yields, accounted⟩ := interleaves
  cases evolves with
  | step ready alike leaves => exact guarded.respects_step roomy welcomes ready alike leaves
  | enter linked defers leaves =>
      exact respects_of_moves
        (Host.heeds_enterMethod guarded linked defers roomy _ _ _) leaves
  | stageInitializers known _ leaves => exact guarded.respects_stageInitializers known leaves
  | prepare linked defers leaves => exact guarded.respects_prepare welcomes linked defers leaves
  | resume found => exact guarded.respects_switchTo found
  | park id => exact guarded.respects_park (yields id rfl)
  | drop id => exact guarded.respects_switchBack id
  | abandon => exact guarded.heeds_abandonExecution.respects
  | reset => exact guarded.heeds_reset.respects
  | unwind leaves => exact respects_of_moves (Host.heeds_unwind guarded _) leaves
  | operands idle limit => exact guarded.respects_operands idle limit
  | define leaves =>
      exact guarded.respects_of_calm (Host.paces_defineClass _).walks
        (Host.calm_defineClass closed _) leaves
  | load leaves =>
      exact guarded.respects_of_calm (Host.paces_load _).walks (Host.calm_load closed _) leaves
  | newString leaves =>
      exact guarded.respects_of_calm (Host.paces_newString _).walks
        (Host.calm_newString closed _) leaves
  | newIntArray leaves =>
      exact guarded.respects_of_calm (Host.paces_newIntArray _).walks
        (Host.calm_newIntArray closed _) leaves
  | newStringArray leaves =>
      exact guarded.respects_of_calm (Host.paces_newStringArray _).walks
        (Host.calm_newStringArray closed _) leaves
  | registerNative leaves =>
      exact guarded.respects_of_calm (Host.paces_registerNative _ _ _ _).walks
        (Host.calm_registerNative closed _ _ _ _) leaves
  | bindNative leaves =>
      exact guarded.respects_of_calm (Guest.paces_bindNative _).walks
        (Guest.calm_bindNative closed _) leaves
  | builtin alike leaves => exact guarded.respects_builtin welcomes alike leaves
  | select known linked => exact guarded.respects_select known linked
  | collect =>
      exact (guarded.idles_of_calm (.single .collect) closed.calm_collectGarbage).toHeeds.respects
  | adjust adjusts => exact guarded.respects_of_adjusts adjusts (accounted adjusts)

end

/-! ## Runs -/

/-- What may happen next while an execution waits. -/
structure Awaits (bounds : Bounds) (id : ExecId) (before after : Machine) : Prop where
  interleaves : Interleaves bounds before after
  waits : ∃ exec ∈ before.parked, exec.id = id

section

variable {bounds : Bounds} (guarded : before.Guarded)

include guarded

theorem Guarded.of_interleaved (run : Relation.ReflTransGen (Interleaves bounds) before after) :
    after.Guarded := by
  induction run with
  | refl => exact guarded
  | tail _ interleaves ih => exact (ih.respects interleaves).guarded

/-- An execution that waits keeps its locks for as long as it does. -/
theorem Guarded.spares_of_awaited {id : ExecId}
    (run : Relation.ReflTransGen (Awaits bounds id) before after) :
    before.Spares after id ∧ (∀ lock : Lock, lock.Lasts before → lock.Lasts after) := by
  induction run with
  | refl => exact ⟨.refl _ _, fun _ lasts => lasts⟩
  | tail run awaits ih =>
      obtain ⟨spares, lasts⟩ := ih
      have reached := guarded.of_interleaved
        (Relation.ReflTransGen.mono (fun _ _ awaits => awaits.interleaves) _ _ run)
      have respects := reached.respects awaits.interleaves
      obtain ⟨exec, waits, same⟩ := awaits.waits
      exact ⟨spares.trans (same ▸ respects.spares exec waits) lasts,
        fun lock there => respects.lasts lock (lasts lock there)⟩

end

end Machine

end Jvm
