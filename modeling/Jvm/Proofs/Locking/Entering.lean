import Jvm.Proofs.Locking.Taking
import Jvm.Proofs.Machine.Pending
import Jvm.Proofs.Machine.Endings

/-!
# Frames that come and go under locks

A frame comes on top of the others when its call has taken its lock. Class initializers are
called by nobody and take no lock, as long as they are not synchronized. A frame that
returns or is left for an exception gives up its lock with it, and an execution that is given
up has neither frames nor locks. Nobody loses the lock of a frame that it has.
-/

namespace Jvm

open Machine

namespace Machine

variable {before after : Machine}

/-- What has become of the frames of the running execution, the others being the same. -/
theorem exec_methods_of_methods {added : List MethodId} (parked : after.parked = before.parked)
    (methods : after.methods = added ++ before.methods) :
    after.exec.methods = added ++ before.exec.methods := by
  rw [Machine.methods_eq, Machine.methods_eq, parked, ← List.append_assoc] at methods
  exact List.append_cancel_right methods

/-! ## Initializers -/

/-- Frames without locks need none. -/
theorem Covers.append {calls added : List MethodId} (covers : before.Covers calls)
    (free : ∀ call ∈ added, (before.method call).isSynchronized = false) :
    before.Covers (added ++ calls) := by
  intro id
  have none : added.countP (before.registry.takesLock id) = 0 := by
    refine List.countP_eq_zero.mpr fun call member takes => ?_
    rw [ClassTable.takesLock] at takes
    change ((before.method call).isSynchronized && _ && _) = true at takes
    rw [free call member] at takes
    cases takes
  rw [List.countP_append, none, Nat.zero_add]
  exact covers id

theorem Raises.initializers {pc : UInt32} {pending : List MethodId}
    (raises : before.Raises pc pending after) {method : MethodId} (member : method ∈ pending) :
    after.registry.Has method.owner ∧
      (after.registry.get method.owner).initializer? = some method := by
  induction raises with
  | rest => cases member
  | push stays takes raises ih =>
      rcases List.mem_cons.mp member with rfl | above
      · have advances := (advances_launch stays.closed _ _).trans raises.advances
        refine ⟨advances.grows.has takes.linked.1, ?_⟩
        exact (advances.grows.declaredMethod? stays.closed.registry.table
          advances.closed.registry.table takes.linked.1 _ _).trans takes.own
      · exact ih above

variable (guarded : before.Guarded)

include guarded

/-- Initializers that are started take no locks. -/
theorem Guarded.heeds_of_raises {pc : UInt32} {pending : List MethodId}
    (changes : ChangesIn .unlocked before after) (raises : before.Raises pc pending after)
    (sound : after.Sound) : before.Heeds after := by
  have advances := raises.advances
  have spares := guarded.spares_of_changes changes fun _ => not_false
  refine guarded.heeds changes advances.grows sound advances.id advances.parked
    (fun id _ => spares id) ?_
  intro fit unlocked
  obtain ⟨fitBefore, unlockedBefore⟩ := guarded.fits sound advances.grows fit unlocked
  obtain ⟨-, -, -, methods, -⟩ := raises.frames fit (guarded.stands fitBefore)
  rw [exec_methods_of_methods advances.parked methods]
  refine ((guarded.covers fitBefore unlockedBefore).of_spares
    (guarded.linked fitBefore (.head _)) advances.grows advances.id (spares _)).append ?_
  intro call member
  obtain ⟨known, own⟩ := raises.initializers (List.mem_reverse.mp member)
  exact unlocked call.owner call known own

/-- Who keeps its frames and locks may still call a method that it has taken the lock for. -/
theorem Guarded.covers_of_minds (minds : before.Minds after) {call : MethodId}
    (known : before.registry.Has call.owner)
    (covers : before.registry.Fit → before.registry.Unlocked →
      before.Covers (call :: before.exec.methods))
    (fit : after.registry.Fit) (unlocked : after.registry.Unlocked) :
    after.Covers (call :: after.exec.methods) := by
  obtain ⟨fitBefore, unlockedBefore⟩ := guarded.fits minds.guarded.sound minds.grows fit unlocked
  rw [minds.methods fit]
  refine (covers fitBefore unlockedBefore).of_spares ?_ minds.grows minds.id minds.own
  rintro other (_ | ⟨_, member⟩)
  · exact known
  · exact guarded.linked fitBefore (.head _) other member

end Machine

namespace Guest

variable {machine : Machine} (guarded : machine.Guarded)

include guarded

theorem heeds_ensureInitialized {id : ClassId} (known : machine.registry.Has id) (pc : UInt32) :
    Moves Heeds (ensureInitialized id pc) machine fun pushed after =>
      (∀ id, (after.cls id).monitor = (machine.cls id).monitor) ∧
        (pushed = false → machine.Stays after) := by
  have raises := raises_ensureInitialized guarded.closed known pc
  have deepens : Moves (Deepens False) _ machine _ :=
    deepens_ensureInitialized guarded.closed known pc
  have walks : WalksIn .unlocked (ensureInitialized id pc) :=
    (paces_ensureInitialized trivial id pc).walks
  have sound : ∀ after, machine.Deepens False after → after.Sound := by
    intro after deepens
    have follows : machine.Follows False after :=
      guarded.sound.follows_of_extends deepens.extends
    exact follows.sound
  refine Ends.mono ((raises.and deepens).and (walks machine)) ?_ ?_
  · rintro pushed after ⟨⟨⟨raised, -⟩, deepened, quiet⟩, changes, -⟩
    exact ⟨guarded.heeds_of_raises changes raised (sound after deepened),
      fun _ => changes.monitor_cls not_false, quiet⟩
  · rintro - after ⟨⟨⟨started, -, raised⟩, deepened⟩, changes⟩
    exact guarded.heeds_of_raises changes raised (sound after deepened)

/-! ## Locks of calls -/

omit guarded in
/-- The lock of a call has been taken if that is what the answer says. -/
theorem admits_takeLock (lock : Option Lock) :
    Ends (takeLock lock) machine (fun taken _ => taken = true → ∀ id, lock = some (.cls id) →
      ((machine.cls id).monitor.enter machine.exec.id).isSome = true) fun _ _ => False := by
  cases lock with
  | none => exact ends_pure.mpr fun _ _ locked => nomatch locked
  | some lock =>
      refine ends_modifyGet.mpr fun taken id locked => ?_
      cases locked
      rw [Machine.enterLock] at taken
      cases enters : (machine.cls id).monitor.enter machine.exec.id with
      | some next => rfl
      | none =>
          simp only [monitor?, enters] at taken
          cases taken

/-- A call that has taken its lock may come under it. -/
theorem heeds_takeLock {id : MethodId} (known : machine.registry.Has id.owner)
    (roomy : machine.Roomy machine.exec.id) :
    Ends (takeLock (callLock? machine id)) machine
      (fun taken after => machine.Heeds after ∧ machine.Calm after ∧ after.exec = machine.exec ∧
        machine.Acquires (callLock? machine id) after ∧
        (taken = true → after.registry.Fit → after.registry.Unlocked →
          after.Covers (id :: after.exec.methods)))
      fun _ _ => False := by
  have calm := calm_takeLock guarded.closed (callLock? machine id)
  have acquires := @acquires_takeLock machine (callLock? machine id)
    fun _ => linked_of_lockOf? known
  have walks := (paces_takeLock (callLock? machine id)).walks machine
  refine Ends.mono (((acquires.and calm).and (admits_takeLock _)).and walks) ?_
    fun _ _ never => never.1.1.1
  rintro taken after ⟨⟨⟨⟨acquires, exec, -⟩, calm, -⟩, admits⟩, changes, -⟩
  have follows : machine.Follows False after := guarded.sound.follows_of_calm calm
  have linked : machine.registry.Fit → ∀ call ∈ id :: machine.exec.methods,
      machine.registry.Has call.owner := by
    rintro fit call (_ | ⟨_, member⟩)
    · exact known
    · exact guarded.linked fit (.head _) call member
  refine ⟨?_, calm, exec, acquires, ?_⟩
  · refine guarded.heeds changes calm.grows follows.sound calm.exec.id calm.parked
      (fun _ differs => acquires.spares differs) fun fit unlocked => ?_
    obtain ⟨fitBefore, unlockedBefore⟩ := guarded.fits follows.sound calm.grows fit unlocked
    rw [exec]
    exact acquires.covers_of_same calm.grows calm.exec.id
      (fun call member => linked fitBefore call (.tail _ member)) (fun id _ => roomy id)
      (guarded.covers fitBefore unlockedBefore)
  · intro taken fit unlocked
    obtain ⟨fitBefore, unlockedBefore⟩ := guarded.fits follows.sound calm.grows fit unlocked
    rw [exec]
    refine acquires.covers calm.grows calm.exec.id (linked fitBefore) roomy (fun cls takes => ?_)
      (guarded.covers fitBefore unlockedBefore)
    have locked : callLock? machine id = some (.cls cls) :=
      (machine.lockOf?_eq_cls_iff id _ cls).mpr takes
    exact ⟨locked, admits taken cls locked⟩

/-- A call that is over releases the lock that it has taken. -/
theorem heeds_releaseLock {id : MethodId} {lock : Option Lock}
    (known : machine.registry.Has id.owner)
    (linked : ∀ held, lock = some held → held.Linked machine.registry.toClassTable)
    (locks : ∀ cls, lock = some (.cls cls) → machine.registry.takesLock cls id = true)
    (covers : machine.registry.Fit → machine.registry.Unlocked →
      machine.Covers (id :: machine.exec.methods)) :
    machine.Heeds (releaseLock lock machine) := by
  have calm := calm_releaseLock guarded.closed lock
  have releases : machine.Releases lock (releaseLock lock machine) ∧
      (releaseLock lock machine).exec = machine.exec := by
    cases lock with
    | none => exact ⟨releases_none, rfl⟩
    | some held => exact ⟨releases_exitLock (linked held rfl), machine.exec_exitLock held⟩
  have follows : machine.Follows False _ := guarded.sound.follows_of_calm calm
  refine guarded.heeds (shapes_releaseLock lock machine).changes calm.grows follows.sound calm.exec.id
    calm.parked (fun _ differs => releases.1.spares differs) fun fit unlocked => ?_
  obtain ⟨fitBefore, unlockedBefore⟩ := guarded.fits follows.sound calm.grows fit unlocked
  rw [releases.2]
  refine releases.1.covers calm.grows calm.exec.id ?_ locks (covers fitBefore unlockedBefore)
  rintro call (_ | ⟨_, member⟩)
  · exact known
  · exact guarded.linked fitBefore (.head _) call member

/-! ## Calls of methods with code -/

omit guarded in
/-- A frame that is not made leaves frames and locks alone. -/
theorem quiet_pushFrame (id : MethodId) (callerPc returnPc : UInt32) :
    Ends (pushFrame id callerPc returnPc) machine (fun _ _ => True)
      fun _ after => ChangesIn .quiet machine after := by
  have refuses : ∀ {step : Guest PUnit}, WalksIn .quiet step →
      Ends step machine (fun _ _ => True) fun _ after => ChangesIn .quiet machine after :=
    fun walks => Ends.mono (walks machine) (fun _ _ _ => trivial) fun _ _ changes => changes
  simp only [pushFrame, ends_bind, ends_get]
  split
  · exact refuses (paces_fault _).walks
  · split
    · exact refuses (paces_fault _).walks
    · split
      · exact refuses (paces_raise _ _).walks
      · exact ends_modify.mpr trivial

/-- A frame may come under the lock that its call has taken. -/
theorem heeds_pushFrame {id : MethodId} (linked : machine.registry.HasMethod id)
    (offers : machine.exec.Offers (machine.method id).frameArgSlots.toNat)
    (covers : machine.registry.Fit → machine.registry.Unlocked →
      machine.Covers (id :: machine.exec.methods)) (callerPc returnPc : UInt32) :
    Ends (pushFrame id callerPc returnPc) machine (fun _ after => machine.Heeds after)
      fun _ after => machine.Idles after := by
  have pushes := ends_pushFrame_calm guarded.closed id callerPc returnPc
  refine Ends.mono (pushes.and (quiet_pushFrame id callerPc returnPc)) ?_ ?_
  · rintro - after ⟨⟨claimed, bounded, rfl⟩, -⟩
    have heightens := heightens_enter guarded.closed linked claimed bounded
      (fun _ _ _ => offers) callerPc returnPc
    have deepens : machine.Deepens False _ := ⟨heightens, nofun⟩
    have follows : machine.Follows False _ := guarded.sound.follows_of_extends deepens.extends
    have changes : ChangesIn .unlocked machine (machine.modifyExec fun exec =>
        exec.enter (machine.method id) id callerPc returnPc) :=
      .single (.frames trivial rfl rfl rfl)
    refine guarded.heeds changes deepens.grows follows.sound rfl rfl
      (fun exec _ => guarded.spares_of_changes changes (fun _ => not_false) exec) ?_
    intro fit unlocked
    have methods := methods_enter linked claimed bounded (fun _ _ _ => offers) callerPc returnPc
      fit (guarded.stands fit)
    have entered : (machine.modifyExec fun exec => exec.enter (machine.method id) id callerPc
        returnPc).exec.methods = [id] ++ machine.exec.methods :=
      exec_methods_of_methods rfl methods
    rw [entered]
    exact covers fit unlocked
  · rintro - after ⟨calm, changes⟩
    exact guarded.idles_of_calm changes calm

omit guarded in
/-- The lock of a call that is linked is linked later. -/
theorem locks_callLock? {id : MethodId} (known : machine.registry.Has id.owner) {after : Machine}
    (grows : machine.registry.GrowsTo after.registry.toClassTable) :
    (∀ held, callLock? machine id = some held → held.Linked after.registry.toClassTable) ∧
      ∀ cls, callLock? machine id = some (.cls cls) → after.registry.takesLock cls id = true := by
  constructor
  · intro held locked
    have linked := linked_of_lockOf? known locked
    cases held with
    | object ref => trivial
    | cls cls => exact grows.has linked
  · intro cls locked
    rw [grows.takesLock known]
    exact (machine.lockOf?_eq_cls_iff id _ cls).mp locked

/-- A call of a method with code that goes on has a frame under the lock that it has taken. -/
theorem heeds_invoke_interpreted {id : MethodId} (linked : machine.registry.HasMethod id)
    (interpreted : (machine.method id).isNative = false)
    (offers : machine.exec.Offers (machine.method id).frameArgSlots.toNat)
    (roomy : machine.Roomy machine.exec.id) (reentry : Reentry) (callerPc returnPc : UInt32) :
    Moves Heeds (invoke reentry id callerPc returnPc) machine fun _ _ => True := by
  refine Moves.get_bind ?_
  dsimp only
  split
  · exact (Moves.idles_of_calm guarded (paces_raise _ _).walks
      (calm_raise guarded.closed _ _)).idles_heeds
  · rw [Moves, ends_bind]
    refine (heeds_takeLock guarded linked.1 roomy).mono ?_ fun _ _ never => never.elim
    rintro taken entered ⟨heeds, calm, -, -, covers⟩
    cases taken with
    | false => exact ends_pure.mpr ⟨heeds, trivial⟩
    | true =>
        rw [Bool.not_true, if_neg Bool.false_ne_true, interpreted, if_neg Bool.false_ne_true,
          ends_bind, ends_onThrow]
        have later := heeds.guarded
        have pushes := heeds_pushFrame later (calm.grows.hasMethod linked)
          (by rw [calm.frameArgSlots linked]; exact calm.offers offers) (covers rfl)
          callerPc returnPc
        refine pushes.mono (fun _ _ pushed => ends_pure.mpr ⟨heeds.trans pushed, trivial⟩) ?_
        intro _ after idles
        obtain ⟨held, takes⟩ := locks_callLock? linked.1 (calm.grows.trans idles.grows)
        exact (heeds.trans idles.toHeeds).trans (heeds_releaseLock idles.guarded
          ((calm.grows.trans idles.grows).has linked.1) held takes
          (later.covers_of_minds idles.toMinds (calm.grows.has linked.1) (covers rfl)))

end Guest

/-! ## Frames that go -/

namespace Machine

variable {before after machine : Machine} {id : MethodId}

/-- A class that is not linked has no methods, hence none under a lock. -/
theorem linked_of_frameLock? {lock : Lock} (locked : machine.frameLock? id = some lock) :
    lock.Linked machine.registry.toClassTable := by
  by_cases known : machine.registry.Has id.owner
  · exact linked_of_lockOf? known locked
  · have free : (machine.method id).isSynchronized = false := by
      have absent : machine.registry.get id.owner = default := by
        rw [ClassTable.get, Array.getD_eq_getD_getElem?,
          Array.getElem?_eq_none (Nat.le_of_not_lt known)]
        rfl
      rw [Machine.method, ClassTable.method, absent, Array.getD_eq_getD_getElem?,
        Array.getElem?_eq_none (Nat.zero_le _)]
      rfl
    rw [frameLock?, lockOf?, free] at locked
    cases locked

section

variable (guarded : before.Guarded)

include guarded

/-- The frame of a method goes with the lock of the method, and no more than that. -/
theorem Guarded.heeds_of_releases {scope : Scope} (changes : ChangesIn scope before after)
    (shrinks : before.Shrinks after)
    (releases : before.Releases (before.frameLock? id) after)
    (methods : before.registry.Fit → before.exec.methods = id :: after.exec.methods) :
    before.Heeds after := by
  have follows : before.Follows False after := guarded.sound.follows_of_shrinks shrinks
  refine guarded.heeds changes shrinks.grows follows.sound shrinks.id shrinks.parked
    (fun _ differs => releases.spares differs) fun fit unlocked => ?_
  obtain ⟨fitBefore, unlockedBefore⟩ := guarded.fits follows.sound shrinks.grows fit unlocked
  have covers := guarded.covers fitBefore unlockedBefore
  have linked := guarded.linked fitBefore (.head _)
  rw [methods fitBefore] at covers linked
  exact releases.covers shrinks.grows shrinks.id linked
    (fun cls => (before.lockOf?_eq_cls_iff id _ cls).mp) covers

/-- Who has no frames needs no locks. -/
theorem Guarded.heeds_of_idle {scope : Scope} (changes : ChangesIn scope before after)
    (shrinks : before.Shrinks after) (idle : after.exec.method = none)
    (spares : ∀ exec, exec ≠ before.exec.id → before.Spares after exec) : before.Heeds after := by
  have follows : before.Follows False after := guarded.sound.follows_of_shrinks shrinks
  refine guarded.heeds changes shrinks.grows follows.sound shrinks.id shrinks.parked spares ?_
  intro _ _ cls
  rw [Execution.methods_of_idle idle]
  exact Nat.zero_le _

theorem Guarded.heeds_reset : before.Heeds (before.modifyExec Execution.reset) := by
  have changes : ChangesIn .unlocked before (before.modifyExec Execution.reset) :=
    .single (.frames trivial rfl rfl rfl)
  exact guarded.heeds_of_idle changes (shrinks_reset guarded.closed) rfl
    fun exec _ => guarded.spares_of_changes changes (fun _ => not_false) exec

theorem Guarded.heeds_abandonFrame (busy : before.exec.method = some id) :
    before.Heeds (before.abandonFrame id) := by
  refine guarded.heeds_of_releases (before.shapes_abandonFrame id).changes
    (shrinks_abandonFrame guarded.closed busy)
    (releases_abandonFrame fun _ => linked_of_frameLock?) fun fit => ?_
  rw [exec_abandonFrame]
  exact (guarded.stands fit).methods_leave busy _

/-- An execution that is given up releases its own locks and no others. -/
theorem Guarded.heeds_abandonExecution : before.Heeds before.abandonExecution := by
  refine guarded.heeds_of_idle before.shapes_abandonExecution.changes
    (shrinks_abandonExecution guarded.closed) rfl fun exec differs lock monitor _ found held => ?_
  have strange : monitor.heldBy before.exec.id = false := by
    by_contra own
    exact differs (Monitor.eq_of_heldBy held (Bool.eq_true_of_not_eq_false own))
  rw [abandonExecution, monitor?_modifyExec, monitor?_leaveInitializers, monitor?_releaseLocks,
    found, Option.map_some, strange, if_neg Bool.false_ne_true]

end

end Machine

namespace Guest

variable {machine : Machine} (guarded : machine.Guarded)

include guarded

/-! ## Returns -/

omit guarded in
/-- A frame that fails to return is as it was, and all locks are. -/
theorem quiet_returnFromFrame (value : Value) :
    Ends (returnFromFrame value) machine (fun _ _ => True)
      fun _ after => ChangesIn .quiet machine after := by
  cases busy : machine.exec.method with
  | none =>
      rw [returnFromFrame, ends_bind, ends_get]
      simp only [busy, Guest.fault, fatal, ends_throw]
      exact .refl
  | some id =>
      have hands : ∀ unlocked : Machine, Ends (handOver id value) unlocked (fun _ _ => True)
          fun _ after => ChangesIn .quiet machine after :=
        fun unlocked => (ends_handOver value).mono (fun _ _ _ => trivial) fun _ _ thrown => thrown
      refine ends_returnFromFrame_of_handOver busy (fun _ => hands _) (fun _ _ _ => hands _) ?_
      intro lock _ refused
      have same : (machine.exitLock lock).2 = machine := by
        rw [Machine.exitLock] at refused ⊢
        split at refused
        · cases refused
        · rfl
      rw [same]
      exact Ends.mono (((paces_raise _ _).walks machine).and (Guest.ends_raise _ _ _))
        (fun _ _ never => never.2) fun _ _ ended => ended.1

theorem heeds_returnFromFrame (value : Value) :
    Moves Heeds (returnFromFrame value) machine fun _ _ => True := by
  cases busy : machine.exec.method with
  | none =>
      rw [returnFromFrame, Moves, ends_bind, ends_get]
      simp only [busy, Guest.fault, fatal, ends_throw]
      exact guarded.heeds_refl
  | some id =>
      have shrinks := ends_returnFromFrame_shrinks guarded.closed value
      have releases := ends_returnFromFrame_releases (fun _ => linked_of_frameLock?) busy value
      have walks := (paces_returnFromFrame value).walks machine
      refine Ends.mono ((shrinks.and walks).and ((quiet_returnFromFrame value).and
        (releases.and (ends_returnFromFrame value busy)))) ?_
        fun _ after ended => (guarded.idles_of_calm ended.2.1 ended.1.1).toHeeds
      rintro step after ⟨⟨shrinks, changes, -⟩, -, releases, resumed, -⟩
      refine ⟨guarded.heeds_of_releases changes shrinks releases fun fit => ?_, trivial⟩
      rw [resumed]
      exact (guarded.stands fit).methods_resume busy value

/-! ## Exceptions -/

theorem heeds_unwindFrames (ref : Ref) (thrown : ClassId) (fuel : Nat)
    (trace : List (MethodId × UInt32)) :
    Moves Heeds (unwindFrames ref thrown fuel trace) machine fun _ _ => True := by
  induction fuel generalizing machine trace with
  | zero => exact Moves.throw guarded.heeds_refl
  | succ fuel ih =>
      rw [unwindFrames]
      refine Moves.get_bind ?_
      split
      next =>
          have resets := guarded.heeds_reset
          exact Moves.modify_bind resets (Moves.throw resets.guarded.heeds_refl)
      next id busy =>
          have searches : Moves Calm (findHandler id machine.exec.pc thrown) machine
              fun _ after => after.exec.method = some id :=
            (calm_findHandler guarded.closed id _ thrown).mono fun _ _ calm _ =>
              calm.exec.method.trans busy
          refine (Moves.idles_of_calm guarded (paces_findHandler _ _ _).walks searches).idles_bind ?_
          intro handler after searched busy
          have later := searched.guarded
          cases handler with
          | some handlerPc =>
              exact (Moves.idles_of_shrinks later (paces_enterHandler _ _ _).walks
                (shrinks_enterHandler later.closed id handlerPc ref)).idles_heeds
          | none =>
              have drops := later.heeds_abandonFrame busy
              exact Moves.modify_bind drops (ih drops.guarded _)

theorem heeds_unwind (ref : Ref) : Moves Heeds (unwind ref) machine fun _ _ => True := by
  refine Moves.get_bind ?_
  split
  · exact (Moves.idles_of_calm guarded (paces_fault _).walks (calm_fault guarded.closed _)).idles_heeds
  · exact heeds_unwindFrames guarded ref _ _ _

end Guest

theorem Host.heeds_unwind {machine : Machine} (guarded : machine.Guarded) (ref : Ref) :
    Moves Heeds (unwind ref) machine fun _ _ => True :=
  moves_ofGuest (Guest.heeds_unwind guarded ref)

end Jvm
