import Jvm.Machine.Start
import Jvm.Proofs.Machine.Steps

/-!
# Sound machines

A machine is sound if it names linked classes only and the frames of all its
executions stand. What the interpreter and its host do to a sound machine leaves
it sound, and no execution loses or changes a frame but at the top of its chain.
A machine starts sound: the core classes are linked before anything else is, and the
object for a full heap is made of one of them.
-/

namespace Jvm

namespace Machine

/-- The running execution and those that wait. -/
def executions (machine : Machine) : List Execution := machine.exec :: machine.parked

/-- Whether a machine names linked classes only, and the frames of its executions
stand as long as its classes have room in saved contexts. -/
structure Sound (machine : Machine) : Prop where
  closed : machine.Closed
  bounded : machine.config.stackSlots ≤ FrameContext.encodablePositions
  stands : machine.registry.Fit → ∀ exec ∈ machine.executions,
    exec.Stands machine.registry.toClassTable exec.saved

/-- Whether the executions of a machine go on from those of an earlier one: frames
have come or gone at the top of a chain, and what the others have saved is the same.
An execution without frames and one created in between go on from none. -/
def Continues (before after : Machine) : Prop :=
  ∀ exec ∈ after.executions, exec.method = none ∨ exec.id = before.nextExec ∨
    ∃ old ∈ before.executions, old.id = exec.id ∧ (old.Under exec ∨ exec.Under old)

/-- Whether a machine is sound and goes on from an earlier one, and initialization has
stayed in order if all calls were plain. -/
structure Follows (plain : Prop) (before after : Machine) : Prop where
  grows : before.registry.GrowsTo after.registry.toClassTable
  sound : after.Sound
  continues : after.registry.Fit → before.Continues after
  progresses : plain → after.registry.Fit → before.Orderly → before.Progresses after

namespace Sound

variable {plain : Prop} {before after : Machine} (sound : before.Sound)

include sound

omit sound in
/-- An execution that was left alone has the frames from before. -/
theorem under_of_untouched {old exec : Execution} (same : old.Untouched exec)
    {saved : List SavedFrame} {table : ClassTable} (stands : old.Stands table saved) :
    old.Under exec := by
  have kept : old.saved = exec.saved := stands.saved_eq.trans (stands.untouched same).saved_eq.symm
  refine ⟨kept ▸ List.suffix_rfl, ?_⟩
  rw [same.stack]
  exact .refl _ _

/-- The frames of an execution that was left alone are those from before. -/
theorem stands_untouched (fit : before.registry.Fit)
    (grows : before.registry.GrowsTo after.registry.toClassTable) {old exec : Execution}
    (found : old ∈ before.executions) (same : old.Untouched exec) :
    exec.Stands after.registry.toClassTable old.saved :=
  ((sound.stands fit old found).untouched same).grow grows

theorem follows_of_turns (turns : before.Turns plain after) : before.Follows plain after := by
  obtain ⟨between, extended, shrinks⟩ := turns
  have grows := extended.grows.trans shrinks.grows
  have fits : after.registry.Fit → between.registry.Fit ∧ before.registry.Fit := by
    intro fit
    have fitBetween := fit_of_growsTo extended.closed shrinks.closed shrinks.grows fit
    exact ⟨fitBetween, fit_of_growsTo sound.closed extended.closed extended.grows fitBetween⟩
  have executes : after.registry.Fit → ∀ exec ∈ after.executions,
      exec.Stands after.registry.toClassTable exec.saved ∧
        (exec.id = before.nextExec ∨
          ∃ old ∈ before.executions, old.id = exec.id ∧ (old.Under exec ∨ exec.Under old)) := by
    intro fit exec member
    obtain ⟨fitBetween, fitBefore⟩ := fits fit
    rcases List.mem_cons.mp member with rfl | member
    · obtain ⟨deeper, stands, below, same⟩ := extended.frames fitBetween _
        (sound.stands fitBefore before.exec (.head _))
      obtain ⟨left, stands, above, same'⟩ := shrinks.frames fit deeper stands
      rw [stands.saved_eq]
      refine ⟨stands, .inr ⟨before.exec, .head _, (shrinks.id.trans extended.id).symm, ?_⟩⟩
      rcases List.suffix_or_suffix_of_suffix below above with suffix | suffix
      · refine .inl ⟨stands.saved_eq.symm ▸ suffix, ?_⟩
        exact same.trans (same'.of_subset suffix.subset)
      · refine .inr ⟨stands.saved_eq.symm ▸ suffix, ?_⟩
        rw [stands.saved_eq]
        exact ((same.of_subset suffix.subset).trans same').symm
    · rw [shrinks.parked] at member
      rcases extended.parked exec member with ⟨old, found, same⟩ | ⟨id, created⟩
      · have stands := sound.stands_untouched fitBefore grows (.tail _ found) same
        rw [stands.saved_eq]
        have under := under_of_untouched same (sound.stands fitBefore old (.tail _ found))
        exact ⟨stands, .inr ⟨old, .tail _ found, same.id.symm, .inl under⟩⟩
      · obtain ⟨saved, stands⟩ := created fitBetween
        rw [stands.saved_eq]
        exact ⟨stands.grow shrinks.grows, .inl id⟩
  refine ⟨grows, ⟨shrinks.closed, ?_, ?_⟩, ?_, ?_⟩
  · rw [shrinks.config, extended.config]
    exact sound.bounded
  · exact fun fit exec member => (executes fit exec member).1
  · exact fun fit exec member => .inr (executes fit exec member).2
  · intro calls fit orderly
    obtain ⟨fitBetween, fitBefore⟩ := fits fit
    have stands := sound.stands fitBefore before.exec (.head _)
    have extends' := extended.governs calls sound.closed fitBetween _ stands orderly
    obtain ⟨deeper, stands, -⟩ := extended.frames fitBetween _ stands
    exact extends'.trans extended.grows
      (shrinks.governs extended.closed fit deeper stands extends'.orderly)

theorem follows_of_shrinks (shrinks : before.Shrinks after) : before.Follows plain after :=
  sound.follows_of_turns (shrinks.turns sound.closed)

theorem follows_of_extends (extended : before.Extends plain after) :
    before.Follows plain after :=
  sound.follows_of_turns extended.turns

theorem follows_of_calm (calm : before.Calm after) : before.Follows plain after :=
  sound.follows_of_extends calm.extends

/-- A call that is staged on an idle execution. -/
theorem follows_of_settles (idle : before.exec.method = none)
    (settles : before.Settles plain after) : before.Follows plain after := by
  have executes : after.registry.Fit → ∀ exec ∈ after.executions,
      exec.Stands after.registry.toClassTable exec.saved ∧
        ∃ old ∈ before.executions, old.id = exec.id ∧ (old.Under exec ∨ exec.Under old) := by
    intro fit exec member
    have fitBefore := fit_of_growsTo sound.closed settles.closed settles.grows fit
    rcases List.mem_cons.mp member with rfl | member
    · have stands := sound.stands fitBefore before.exec (.head _)
      obtain ⟨left, settled⟩ := settles.frames fit _ stands
      rw [settled.saved_eq]
      refine ⟨settled, before.exec, .head _, settles.id.symm, .inl ?_⟩
      refine ⟨?_, ?_⟩ <;> rw [(stands.idle idle).1]
      · exact List.nil_suffix
      · exact fun _ member => nomatch member
    · rw [settles.parked] at member
      have stands := sound.stands fitBefore exec (.tail _ member)
      exact ⟨stands.grow settles.grows, exec, .tail _ member, rfl, .inl (.refl exec)⟩
  refine ⟨settles.grows, ⟨settles.closed, ?_, ?_⟩, ?_, ?_⟩
  · rw [settles.config]
    exact sound.bounded
  · exact fun fit exec member => (executes fit exec member).1
  · exact fun fit exec member => .inr (.inr (executes fit exec member).2)
  · intro calls fit orderly
    have fitBefore := fit_of_growsTo sound.closed settles.closed settles.grows fit
    exact settles.governs calls sound.closed fit _ (sound.stands fitBefore before.exec (.head _))
      orderly

/-- Executions change places, and new ones have no frames. -/
theorem follows_of_executions (registry : after.registry = before.registry)
    (known : after.known = before.known) (heap : after.heap = before.heap)
    (config : after.config = before.config)
    (same : ∀ exec ∈ after.executions, exec ∈ before.executions ∨
      ∃ id, exec = Execution.idle id before.config.stackSlots)
    (fewer : after.methods.Subperm before.methods) : before.Follows plain after := by
  refine ⟨?_, ⟨⟨?_, ?_, ?_⟩, ?_, ?_⟩, ?_, ?_⟩
  · rw [registry]
    exact .refl _
  · rw [registry]
    exact sound.closed.registry
  · rw [registry, known]
    exact sound.closed.known
  · rw [registry, heap]
    exact sound.closed.heap
  · rw [config]
    exact sound.bounded
  · rw [registry]
    intro fit exec member
    rcases same exec member with kept | ⟨id, rfl⟩
    · exact sound.stands fit exec kept
    · have stands : (Execution.idle id before.config.stackSlots).Stands
          before.registry.toClassTable [] := Execution.stands_of_idle rfl rfl sound.bounded
      rw [stands.saved_eq]
      exact stands
  · intro _ exec member
    rcases same exec member with kept | ⟨id, rfl⟩
    · exact .inr (.inr ⟨exec, kept, rfl, .inl (.refl exec)⟩)
    · exact .inl rfl
  · exact fun _ _ orderly => progresses_of_fewer sound.closed registry orderly fewer

/-! ## Changing the running execution -/

omit sound in
theorem mem_of_unpark {id : ExecId} {exec : Execution}
    (found : before.unpark id = some (exec, after)) :
    exec ∈ before.parked ∧ exec.id = id ∧
      after = { before with parked := before.parked.filter (·.id ≠ id) } := by
  simp only [unpark, Option.map_eq_some_iff, Prod.mk.injEq] at found
  obtain ⟨parked, found, rfl, rfl⟩ := found
  have same := List.find?_some found
  exact ⟨List.mem_of_find?_eq_some found, by simpa using same, rfl⟩

omit sound in
theorem subperm_of_mem {exec : Execution} (member : exec ∈ before.parked) :
    (exec :: before.parked.filter (·.id ≠ exec.id)).Subperm before.parked := by
  refine List.cons_subperm_of_not_mem_of_mem ?_ member List.filter_sublist.subperm
  intro kept
  simpa using (List.mem_filter.mp kept).2

omit sound in
/-- An execution that comes back takes the place of the one that waits. -/
theorem subperm_of_swap {exec : Execution} {rest : List Execution} (member : exec ∈ before.parked)
    (fewer : rest.Sublist (before.parked.filter (·.id ≠ exec.id))) :
    (exec :: before.exec :: rest).Subperm (before.exec :: before.parked) :=
  (List.Perm.swap _ _ _).subperm.trans ((List.subperm_cons _).mpr
    ((fewer.cons_cons exec).subperm.trans (subperm_of_mem member)))

theorem follows_switchTo {id : ExecId} {exec : Execution}
    (found : before.unpark id = some (exec, after)) :
    before.Follows plain (after.switchTo exec) := by
  obtain ⟨member, rfl, rfl⟩ := mem_of_unpark found
  refine sound.follows_of_executions rfl rfl rfl rfl (fun other place => ?_)
    (methods_subperm (subperm_of_swap member List.filter_sublist))
  simp only [executions, switchTo, park, List.mem_cons, List.mem_filter] at place ⊢
  grind

omit sound in
theorem switchBack_cases (machine : Machine) (id : ExecId) :
    (∃ exec ∈ machine.parked, exec.id = id ∧
      machine.switchBack id = (machine.exec, { machine with
        exec, parked := machine.parked.filter (·.id ≠ id) })) ∨
    (∀ exec ∈ machine.parked, exec.id ≠ id) ∧
      machine.switchBack id = (machine.exec, { machine with
        exec := Execution.idle id machine.config.stackSlots }) := by
  rw [switchBack]
  split
  · next exec rest found =>
    obtain ⟨member, same, rfl⟩ := mem_of_unpark found
    exact .inl ⟨exec, member, same, rfl⟩
  · next missing =>
    refine .inr ⟨fun exec member same => ?_, rfl⟩
    rw [unpark, Option.map_eq_none_iff, List.find?_eq_none] at missing
    exact missing exec member (beq_iff_eq.mpr same)

theorem follows_switchBack (id : ExecId) : before.Follows plain (before.switchBack id).2 := by
  rcases switchBack_cases before id with ⟨exec, member, rfl, same⟩ | ⟨-, same⟩
  · rw [same]
    refine sound.follows_of_executions rfl rfl rfl rfl (fun other place => ?_)
      (methods_subperm ((subperm_of_mem member).trans .cons_self))
    simp only [executions, List.mem_cons, List.mem_filter] at place ⊢
    grind
  · rw [same]
    refine sound.follows_of_executions rfl rfl rfl rfl (fun other place => ?_)
      ((List.sublist_cons_self before.exec before.parked).flatMap Execution.methods).subperm
    simp only [executions, List.mem_cons] at place ⊢
    exact place.symm.imp .inr fun same => ⟨id, same⟩

/-- The execution that was running waits for its next slice. -/
theorem follows_park (id : ExecId) :
    before.Follows plain ((before.switchBack id).2.park (before.switchBack id).1) := by
  rcases switchBack_cases before id with ⟨exec, member, rfl, same⟩ | ⟨-, same⟩
  · rw [same]
    refine sound.follows_of_executions rfl rfl rfl rfl (fun other place => ?_)
      (methods_subperm (subperm_of_swap member List.filter_sublist))
    simp only [executions, park, List.mem_cons, List.mem_filter] at place ⊢
    grind
  · rw [same]
    refine sound.follows_of_executions rfl rfl rfl rfl (fun other place => ?_)
      ((List.filter_sublist.cons_cons before.exec).flatMap Execution.methods).subperm
    simp only [executions, park, List.mem_cons, List.mem_filter] at place ⊢
    grind

end Sound

end Machine

/-! ## Starting -/

theorem Except.ok_of_mapError {ε ε' α : Type} {change : ε → ε'} {result : Except ε α} {value : α}
    (succeeded : result.mapError change = .ok value) : result = .ok value := by
  cases result with
  | error error => cases succeeded
  | ok value =>
      cases succeeded
      rfl

namespace CoreClasses

/-- Whether the core classes are those of a table. -/
structure IdsIn (table : ClassTable) (core : CoreClasses) : Prop where
  object : table.Has core.object
  cls : table.Has core.cls
  string : table.Has core.string
  byteArray : table.Has core.byteArray
  cloneable : table.Has core.cloneable
  throwable : table.Has core.throwable
  thread : table.Has core.thread

theorem moves_load (path : ClassPath) {table : ClassTable} (closed : table.Closed) :
    Moves ClassTable.LinksTo (load path) table fun core after => core.IdsIn after := by
  refine (Linking.moves_load path [] _ table closed).bind ?_
  intro object _ first objectKnown
  refine (Linking.moves_load path [] _ _ first.closed).bind ?_
  intro cls _ second clsKnown
  refine (Linking.moves_load path [] _ _ second.closed).bind ?_
  intro string _ third stringKnown
  refine (Linking.moves_load path [] _ _ third.closed).bind ?_
  intro byteArray _ fourth byteArrayKnown
  refine (Linking.moves_load path [] _ _ fourth.closed).bind ?_
  intro cloneable _ fifth cloneableKnown
  refine (Linking.moves_load path [] _ _ fifth.closed).bind ?_
  intro throwable _ sixth throwableKnown
  refine (Linking.moves_load path [] _ _ sixth.closed).bind ?_
  intro printStream _ seventh _
  refine (Linking.moves_load path [] _ _ seventh.closed).bind ?_
  intro thread last eighth threadKnown
  have fromSixth := seventh.grows.trans eighth.grows
  have fromFifth := sixth.grows.trans fromSixth
  have fromFourth := fifth.grows.trans fromFifth
  have fromThird := fourth.grows.trans fromFourth
  have fromSecond := third.grows.trans fromThird
  have fromFirst := second.grows.trans fromSecond
  exact Moves.pure (Linking.linksTo_refl eighth.closed)
    ⟨fromFirst.has objectKnown, fromSecond.has clsKnown, fromThird.has stringKnown,
      fromFourth.has byteArrayKnown, fromFifth.has cloneableKnown, fromSixth.has throwableKnown,
      threadKnown⟩

theorem appends_load (path : ClassPath) (table : ClassTable) :
    Moves ClassTable.Prefixes (load path) table fun _ _ => True := by
  have loads : ∀ (name : String) (table : ClassTable),
      Moves ClassTable.Prefixes (Linking.load path [] name) table fun _ _ => True :=
    fun name table => (Linking.appends_load path [] name table).mono fun _ _ _ _ => trivial
  refine (loads _ _).bind fun _ _ _ _ => ?_
  refine (loads _ _).bind fun _ _ _ _ => ?_
  refine (loads _ _).bind fun _ _ _ _ => ?_
  refine (loads _ _).bind fun _ _ _ _ => ?_
  refine (loads _ _).bind fun _ _ _ _ => ?_
  refine (loads _ _).bind fun _ _ _ _ => ?_
  refine (loads _ _).bind fun _ _ _ _ => ?_
  exact (loads _ _).bind fun _ last _ _ => Moves.pure (.refl last) trivial

/-- The classes that a machine uses itself are the core classes. -/
theorem idsIn_of_known {table : ClassTable} {core : CoreClasses} (ids : core.IdsIn table)
    {wellKnown : WellKnown} (found : core.known table = .ok wellKnown) :
    wellKnown.IdsIn table := by
  simp only [known, Except.bind_eq_ok, pure, Except.pure, Except.ok.injEq] at found
  obtain ⟨_, -, _, -, _, -, _, -, _, -, _, -, _, -, rfl⟩ := found
  exact ⟨ids.object, ids.cls, ids.string, ids.byteArray, ids.cloneable, ids.throwable, ids.thread⟩

end CoreClasses

namespace Registry

theorem ordered_ofPath (path : ClassPath) : (ofPath path).Ordered where
  table := by
    have none := not_has_ofPath path
    refine ⟨?_, ?_, ?_, ?_⟩
    · exact fun id known => (none id known).elim
    · exact fun id known => (none id known).elim
    · exact fun id known => (none id known).elim
    · exact fun id _ _ known => (none id known).elim
  selected key target held := by cases Std.HashMap.getElem?_empty.symm.trans held

theorem links_core (path : ClassPath) : Links (fun core after => core.IdsIn after)
    (ofPath path) ((ofPath path).link CoreClasses.load) :=
  links_link (closed_ofPath path) (CoreClasses.moves_load path (closed_ofPath path).table)
    (CoreClasses.appends_load path _)

/-- Nothing is being initialized while no method has a frame. -/
theorem orderly_of_no_methods {registry : Registry} (ordered : registry.Ordered) :
    registry.Orderly [] where
  ordered := ordered
  linked := nofun
  own := nofun
  once := .nil
  running := nofun

end Registry

namespace Machine

section

variable {config : Config} {path : ClassPath} {machine : Machine}

/-- A machine whose classes are linked has one execution, which is idle. -/
theorem idle_of_linked (started : linked config path = .ok machine) :
    machine.exec = Execution.idle Execution.mainId config.stackSlots ∧ machine.parked = [] := by
  simp only [linked, Except.bind_eq_ok, pure, Except.pure, Except.ok.injEq] at started
  obtain ⟨_, _, _, _, rfl⟩ := started
  exact ⟨rfl, rfl⟩

theorem sound_of_linked (bounded : config.stackSlots ≤ FrameContext.encodablePositions)
    (started : linked config path = .ok machine) : machine.Sound := by
  have links := Registry.links_core path
  simp only [linked, Except.bind_eq_ok, pure, Except.pure, Except.ok.injEq] at started
  obtain ⟨core, loaded, wellKnown, found, rfl⟩ := started
  have known := CoreClasses.idsIn_of_known (links.has core (Except.ok_of_mapError loaded)) found
  refine ⟨⟨links.closed, known, ?_⟩, bounded, ?_⟩
  · intro index object held
    cases held
  · intro _ exec member
    cases List.mem_singleton.mp member
    have stands : (Execution.idle Execution.mainId config.stackSlots).Stands
        ((Registry.ofPath path).link CoreClasses.load).2.toClassTable [] :=
      Execution.stands_of_idle rfl rfl bounded
    rw [stands.saved_eq]
    exact stands

theorem ordered_of_linked (started : linked config path = .ok machine) :
    machine.registry.Ordered := by
  have rests := (Registry.links_core path).rests
  simp only [linked, Except.bind_eq_ok, pure, Except.pure, Except.ok.injEq] at started
  obtain ⟨_, _, _, _, rfl⟩ := started
  exact rests.ordered (Registry.ordered_ofPath path)

end

/-- The object that is thrown when the heap is full is made calmly. -/
theorem calm_of_prepareOutOfMemory {before machine : Machine} (closed : before.Closed)
    (prepared : before.prepareOutOfMemory = .ok machine) : before.Calm machine := by
  have makes := Guest.calm_newThrowable closed
    ExceptionKind.outOfMemoryError.className (some "Java heap space")
  rw [prepareOutOfMemory] at prepared
  dsimp only at prepared
  split at prepared
  · next ref made ran =>
      cases prepared
      have calm := (ends_of_ok ran makes).1
      have sticks : before.Calm (made.modifyHeap fun heap => heap.setSticky ref) :=
        calm.trans (calm.closed.calm_modifyHeap (calm.closed.heap.setSticky ref))
      have keeps : before.Stays { made.modifyHeap fun heap => heap.setSticky ref with
          outOfMemory := some ref } :=
        ⟨sticks.grows, ⟨sticks.closed.registry, sticks.closed.known, sticks.closed.heap⟩,
          sticks.exec, sticks.parked, sticks.config, sticks.nextExec⟩
      exact ⟨keeps, sticks.rests⟩
  · cases prepared
  · cases prepared

section

variable {config : Config} {classes : ClassPath} {machine : Machine}

/-- A machine starts sound if what lies on its stack can be told apart in a saved
context. -/
theorem sound_of_start (bounded : config.stackSlots ≤ FrameContext.encodablePositions)
    (started : start config classes = .ok machine) : machine.Sound := by
  simp only [start, Except.bind_eq_ok] at started
  obtain ⟨bootstrap, -, before, linked, prepared⟩ := started
  have sound := sound_of_linked bounded linked
  have calm := calm_of_prepareOutOfMemory sound.closed prepared
  have follows : before.Follows True machine := sound.follows_of_calm calm
  exact follows.sound

/-- A machine starts with one execution, which has no frames. -/
theorem idle_of_start (bounded : config.stackSlots ≤ FrameContext.encodablePositions)
    (started : start config classes = .ok machine) :
    machine.exec.method = none ∧ machine.parked = [] := by
  simp only [start, Except.bind_eq_ok] at started
  obtain ⟨bootstrap, -, before, linked, prepared⟩ := started
  have calm := calm_of_prepareOutOfMemory (sound_of_linked bounded linked).closed prepared
  obtain ⟨exec, parked⟩ := idle_of_linked linked
  exact ⟨by rw [calm.exec.method, exec, Execution.idle], calm.parked.trans parked⟩

/-- A machine starts with no initializer running. -/
theorem orderly_of_start (bounded : config.stackSlots ≤ FrameContext.encodablePositions)
    (started : start config classes = .ok machine) :
    machine.Orderly ∧ machine.initializing = [] := by
  obtain ⟨idle, parked⟩ := idle_of_start bounded started
  have none : machine.methods = [] := by
    rw [methods_eq, parked, Execution.methods_of_idle idle, List.flatMap_nil, List.append_nil]
  simp only [start, Except.bind_eq_ok] at started
  obtain ⟨bootstrap, -, before, linked, prepared⟩ := started
  have calm := calm_of_prepareOutOfMemory (sound_of_linked bounded linked).closed prepared
  rw [Orderly, initializing, none]
  exact ⟨Registry.orderly_of_no_methods (calm.rests.ordered (ordered_of_linked linked)), rfl⟩

end

end Machine

end Jvm
