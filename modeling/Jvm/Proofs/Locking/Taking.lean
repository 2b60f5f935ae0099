import Jvm.Proofs.Locking.Guarding

/-!
# Steps without locks and steps that take one

Most of what an execution does touches neither frames nor locks: all executions keep what
they hold and have the frames that they had. An execution that takes or releases a lock
leaves alone what the others hold. It may call one more method under the lock of a class
once it has taken that, and one less once it has released it.
-/

namespace Jvm

open Machine

namespace Machine

variable {plain : Prop} {before after : Machine} (guarded : before.Guarded)
  (changes : ChangesIn .quiet before after)

include guarded changes

/-- A step that touches neither frames nor locks, and is known to have done no more to frames
than add some or take some off, has left all of them. -/
theorem Guarded.minds (grows : before.registry.GrowsTo after.registry.toClassTable)
    (sound : after.Sound)
    (near : before.registry.Fit → after.registry.Fit → ∃ saved,
      after.exec.Stands after.registry.toClassTable saved ∧
        (before.exec.saved <:+ saved ∨ saved <:+ before.exec.saved)) : before.Minds after := by
  have frames := changes.sameFrames not_false
  have spares := guarded.spares_of_changes changes fun _ => not_false
  have methods : after.registry.Fit → after.exec.methods = before.exec.methods := by
    intro fit
    have fitBefore := fit_of_growsTo guarded.closed sound.closed grows fit
    obtain ⟨saved, stands, suffix⟩ := near fitBefore fit
    have same := (guarded.stands fitBefore).saved_eq_of_remains stands frames.exec suffix
    rw [stands.methods_eq, (guarded.stands fitBefore).methods_eq, frames.exec.method, same]
  refine ⟨?_, spares _, methods⟩
  refine guarded.heeds changes grows sound frames.exec.id frames.parked (fun id _ => spares id) ?_
  intro fit unlocked
  obtain ⟨fitBefore, unlockedBefore⟩ := guarded.fits sound grows fit unlocked
  rw [methods fit]
  exact (guarded.covers fitBefore unlockedBefore).of_spares (guarded.linked fitBefore (.head _))
    grows frames.exec.id (spares _)

theorem Guarded.minds_of_extends (extended : before.Extends plain after) : before.Minds after := by
  have follows : before.Follows plain after := guarded.sound.follows_of_extends extended
  refine guarded.minds changes extended.grows follows.sound fun fit fit' => ?_
  obtain ⟨deeper, stands, suffix, -⟩ := extended.frames fit' _ (guarded.stands fit)
  exact ⟨deeper, stands, .inl suffix⟩

omit guarded in
theorem Minds.idles (minds : before.Minds after)
    (next : after.nextExec = before.nextExec) : before.Idles after where
  toMinds := minds
  monitors _ := changes.monitor_cls not_false
  parked := (changes.sameFrames not_false).parked
  next := next

theorem Guarded.idles_of_deepens (deepens : before.Deepens plain after) : before.Idles after :=
  Minds.idles changes (guarded.minds_of_extends changes deepens.extends) deepens.nextExec

theorem Guarded.idles_of_shrinks (shrinks : before.Shrinks after) : before.Idles after := by
  have follows : before.Follows False after := guarded.sound.follows_of_shrinks shrinks
  refine Minds.idles changes ?_ shrinks.nextExec
  refine guarded.minds changes shrinks.grows follows.sound fun fit fit' => ?_
  obtain ⟨left, stands, suffix, -⟩ := shrinks.frames fit' _ (guarded.stands fit)
  exact ⟨left, stands, .inr suffix⟩

theorem Guarded.idles_of_calm (calm : before.Calm after) : before.Idles after :=
  guarded.idles_of_shrinks changes calm.shrinks

end Machine

namespace Moves

variable {plain : Prop} {ε α β : Type} {machine : Machine} {returned : α → Machine → Prop}

section

variable {step : EStateM ε Machine α} (guarded : machine.Guarded) (walks : WalksIn .quiet step)

include guarded walks

omit guarded in
/-- A step idles wherever it goes along changes to neither frames nor locks. -/
theorem idles_of {related : Machine → Machine → Prop}
    (rests : ∀ after, ChangesIn .quiet machine after → related machine after →
      machine.Idles after) (moves : Moves related step machine returned) :
    Moves Idles step machine returned :=
  Ends.mono (Ends.and moves (walks machine))
    (fun _ after ended => ⟨rests after ended.2.1 ended.1.1, ended.1.2⟩)
    fun _ after ended => rests after ended.2 ended.1

theorem idles_of_deepens (moves : Moves (Deepens plain) step machine returned) :
    Moves Idles step machine returned :=
  idles_of walks (fun _ changes deepens => guarded.idles_of_deepens changes deepens) moves

theorem idles_of_shrinks (moves : Moves Shrinks step machine returned) :
    Moves Idles step machine returned :=
  idles_of walks (fun _ changes shrinks => guarded.idles_of_shrinks changes shrinks) moves

theorem idles_of_calm (moves : Moves Calm step machine returned) :
    Moves Idles step machine returned :=
  idles_of walks (fun _ changes calm => guarded.idles_of_calm changes calm) moves

/-- Both ways in which such a step leaves things alone. -/
theorem idles_calm (moves : Moves Calm step machine returned) :
    Moves Idles step machine fun value after => returned value after ∧ machine.Calm after :=
  Ends.mono (Ends.and (idles_of_calm guarded walks moves) moves)
    (fun _ _ ended => ⟨ended.1.1, ended.1.2, ended.2.1⟩) fun _ _ ended => ended.1

end

theorem idles_heeds {step : EStateM ε Machine α} (moves : Moves Idles step machine returned) :
    Moves Heeds step machine returned :=
  moves.of_related fun _ idles => idles.toHeeds

/-- A step without locks before one that heeds them. -/
theorem idles_bind {step : EStateM ε Machine β} {next : β → EStateM ε Machine α}
    {between : β → Machine → Prop} (first : Moves Idles step machine between)
    (rest : ∀ value after, machine.Idles after → between value after →
      Moves Heeds (next value) after returned) :
    Moves Heeds (step >>= next) machine returned :=
  first.compose Heeds (fun _ _ idles => idles.toHeeds) rest

end Moves

/-! ## Taking and releasing locks -/

namespace Monitor

variable {monitor : Monitor} {exec other : ExecId}

theorem taken_of_strange (held : monitor.heldBy other = true) (differs : other ≠ exec) :
    monitor.taken exec = monitor := by
  rw [taken, enter_of_strange held differs, Option.getD_none]

theorem released_of_strange (held : monitor.heldBy other = true) (differs : other ≠ exec) :
    monitor.released exec = monitor := by
  rw [released, exit_of_strange held differs, Option.getD_none]

/-- Who holds a monitor less often than can be counted may take it once more. -/
theorem room_of_depth {next : Monitor} (room : monitor.depth exec + 1 < UInt32.size)
    (enters : monitor.enter exec = some next) : monitor.count + 1 ≠ 0 := by
  intro full
  have most : monitor.count.toNat + 1 = UInt32.size := by
    have wraps := congrArg UInt32.toNat full
    rw [UInt32.toNat_add] at wraps
    have below : monitor.count.toNat < UInt32.size := monitor.count.toNat_lt
    change (monitor.count.toNat + 1) % UInt32.size = 0 at wraps
    rcases Nat.lt_or_eq_of_le (Nat.succ_le_of_lt below) with less | equal
    · rw [Nat.mod_eq_of_lt less] at wraps
      cases wraps
    · exact equal
  have taken : monitor.count ≠ 0 := by
    intro free
    rw [free] at most
    cases most
  have own : monitor.owner = exec := by
    by_contra strange
    have refused := (enter_eq_none_iff monitor exec).mpr ⟨taken, strange⟩
    cases refused.symm.trans enters
  rw [depth, if_pos (heldBy_iff.mpr ⟨taken, own⟩), most] at room
  exact Nat.lt_irrefl _ room

theorem depth_taken (room : monitor.depth exec + 1 < UInt32.size)
    (admits : (monitor.enter exec).isSome = true) :
    (monitor.taken exec).depth exec = monitor.depth exec + 1 := by
  obtain ⟨next, enters⟩ := Option.isSome_iff_exists.mp admits
  rw [taken, enters, Option.getD_some]
  exact depth_of_enter enters (room_of_depth room enters)

theorem depth_le_taken (room : monitor.depth exec + 1 < UInt32.size) :
    monitor.depth exec ≤ (monitor.taken exec).depth exec := by
  cases enters : monitor.enter exec with
  | none => rw [taken, enters, Option.getD_none]
  | some next =>
      rw [depth_taken room (by rw [enters]; rfl)]
      exact Nat.le_succ _

theorem depth_le_released : monitor.depth exec ≤ (monitor.released exec).depth exec + 1 := by
  cases exits : monitor.exit exec with
  | none =>
      rw [released, exits, Option.getD_none]
      exact Nat.le_succ _
  | some next => rw [released, exits, Option.getD_some, depth_of_exit exits]

/-- Who takes a monitor does not take it from others. -/
theorem depth_taken_of_ne (differs : other ≠ exec) :
    (monitor.taken exec).depth other = monitor.depth other := by
  have none : ∀ {held : Monitor}, (held.count ≠ 0 → held.owner ≠ other) → held.depth other = 0 :=
    fun strange => if_neg fun held => strange (heldBy_iff.mp held).1 (heldBy_iff.mp held).2
  rw [taken, enter]
  split
  next admitted =>
      rw [Option.getD_some, none fun _ own => differs own.symm, none]
      exact fun held own => differs (own.symm.trans (admitted.resolve_left held))
  next => rw [Option.getD_none]

end Monitor

namespace Machine

/-- Whether an execution has taken each class lock less often than can be counted. -/
def Roomy (machine : Machine) (exec : ExecId) : Prop :=
  ∀ id, (machine.cls id).monitor.depth exec + 1 < UInt32.size

variable {before after : Machine} {lock : Option Lock} {id : ClassId}

theorem Roomy.of_idles {exec : ExecId} (roomy : before.Roomy exec) (idles : before.Idles after) :
    after.Roomy exec := by
  intro id
  rw [idles.monitors]
  exact roomy id

theorem Roomy.of_monitors {exec : ExecId} (roomy : before.Roomy exec)
    (same : ∀ id, (after.cls id).monitor = (before.cls id).monitor) : after.Roomy exec := by
  intro id
  rw [same]
  exact roomy id

namespace Acquires

variable (acquires : before.Acquires lock after)

include acquires

theorem spares {exec : ExecId} (differs : exec ≠ before.exec.id) : before.Spares after exec := by
  intro other monitor _ found held
  rw [acquires other, found]
  split
  · exact congrArg some (Monitor.taken_of_strange held differs)
  · rfl

theorem monitor_cls (id : ClassId) : (after.cls id).monitor =
    if lock = some (.cls id) then (before.cls id).monitor.taken before.exec.id
    else (before.cls id).monitor := by
  have same := acquires (.cls id)
  simp only [monitor?, Option.map_some] at same
  split
  · next locked =>
      rw [if_pos locked] at same
      exact Option.some.inj same
  · next free =>
      rw [if_neg free] at same
      exact Option.some.inj same

theorem roomy {exec : ExecId} (differs : exec ≠ before.exec.id) (roomy : before.Roomy exec) :
    after.Roomy exec := by
  intro id
  rw [acquires.monitor_cls id]
  split
  · rw [Monitor.depth_taken_of_ne differs]
    exact roomy id
  · exact roomy id

end Acquires

theorem Releases.spares (releases : before.Releases lock after) {exec : ExecId}
    (differs : exec ≠ before.exec.id) : before.Spares after exec := by
  intro other monitor _ found held
  rw [releases other, found]
  split
  · exact congrArg some (Monitor.released_of_strange held differs)
  · rfl

theorem Releases.monitor_cls (releases : before.Releases lock after) (id : ClassId) :
    (after.cls id).monitor =
      if lock = some (.cls id) then (before.cls id).monitor.released before.exec.id
      else (before.cls id).monitor := by
  have same := releases (.cls id)
  simp only [monitor?, Option.map_some] at same
  split
  · next locked =>
      rw [if_pos locked] at same
      exact Option.some.inj same
  · next free =>
      rw [if_neg free] at same
      exact Option.some.inj same

/-! ## Locks of calls -/

section

variable {call : MethodId} {calls : List MethodId}
  (grows : before.registry.GrowsTo after.registry.toClassTable)
  (same : after.exec.id = before.exec.id)
  (linked : ∀ other ∈ call :: calls, before.registry.Has other.owner)

include grows same linked

/-- Who has taken the lock of a call holds all that it needs for the call. -/
theorem Acquires.covers (acquires : before.Acquires lock after)
    (roomy : before.Roomy before.exec.id)
    (admits : ∀ id, before.registry.takesLock id call = true →
      lock = some (.cls id) ∧ ((before.cls id).monitor.enter before.exec.id).isSome = true)
    (covers : before.Covers calls) : after.Covers (call :: calls) := by
  intro id
  rw [ClassTable.countP_takesLock grows linked, same, acquires.monitor_cls, List.countP_cons]
  cases takes : before.registry.takesLock id call with
  | true =>
      obtain ⟨locked, admitted⟩ := admits id takes
      rw [if_pos rfl, if_pos locked, Monitor.depth_taken (roomy id) admitted]
      exact Nat.succ_le_succ (covers id)
  | false =>
      rw [if_neg Bool.false_ne_true, Nat.add_zero]
      split
      · exact Nat.le_trans (covers id) (Monitor.depth_le_taken (roomy id))
      · exact covers id

/-- Who has released the lock of a call holds all that it needs for the others. -/
theorem Releases.covers (releases : before.Releases lock after)
    (locks : ∀ id, lock = some (.cls id) → before.registry.takesLock id call = true)
    (covers : before.Covers (call :: calls)) : after.Covers calls := by
  intro id
  have bounded := covers id
  rw [List.countP_cons] at bounded
  rw [ClassTable.countP_takesLock grows fun other member => linked other (.tail _ member), same,
    releases.monitor_cls]
  split
  · next locked =>
      rw [if_pos (locks id locked)] at bounded
      exact Nat.le_of_succ_le_succ (Nat.le_trans bounded Monitor.depth_le_released)
  · exact Nat.le_trans (Nat.le_add_right _ _) bounded

end

/-- Who takes a lock needs no more of it. -/
theorem Acquires.covers_of_same {calls : List MethodId} (acquires : before.Acquires lock after)
    (grows : before.registry.GrowsTo after.registry.toClassTable)
    (same : after.exec.id = before.exec.id)
    (linked : ∀ call ∈ calls, before.registry.Has call.owner)
    (roomy : ∀ id, lock = some (.cls id) →
      (before.cls id).monitor.depth before.exec.id + 1 < UInt32.size)
    (covers : before.Covers calls) : after.Covers calls := by
  intro id
  rw [ClassTable.countP_takesLock grows linked, same, acquires.monitor_cls]
  split
  · next locked => exact Nat.le_trans (covers id) (Monitor.depth_le_taken (roomy id locked))
  · exact covers id

end Machine

end Jvm
