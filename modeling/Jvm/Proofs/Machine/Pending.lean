import Jvm.Proofs.Machine.FrameChain
import Jvm.Proofs.Machine.Frames
import Jvm.Proofs.Registry.Reaching

/-!
# Pending initializers

An instruction that uses a class whose initialization has not begun is put off. The
initializers of the class and of those of its superclasses that have not begun either
are pending: each gets a frame, those of superclasses lie on top and run first. The
bottom one of these frames has saved where the instruction is, and what the caller has
on the stack lies below it, so that its return leads back to the instruction.
-/

namespace Jvm

namespace ClassTable

variable {table : ClassTable}

/-- The initializers that have to run before the first of some classes is used, the others
being its superclasses: theirs up to the first class whose initialization has begun. -/
def pendingInitializers (table : ClassTable) (ids : List ClassId) : List MethodId :=
  (ids.takeWhile fun id => (table.get id).initState == .uninitialized).filterMap fun id =>
    (table.get id).initializer?

theorem pendingInitializers_of_begun {id : ClassId} {above : List ClassId}
    (begun : (table.get id).initState ≠ .uninitialized) :
    table.pendingInitializers (id :: above) = [] := by
  have stops : ((table.get id).initState == .uninitialized) = false := by
    simpa only [beq_eq_false_iff_ne] using begun
  rw [pendingInitializers, List.takeWhile_cons, stops, if_neg Bool.false_ne_true]
  rfl

theorem pendingInitializers_of_fresh {id : ClassId} {above : List ClassId}
    (fresh : (table.get id).initState = .uninitialized) :
    table.pendingInitializers (id :: above) =
      (table.get id).initializer?.toList ++ table.pendingInitializers above := by
  rw [pendingInitializers, List.takeWhile_cons, fresh, if_pos (beq_self_eq_true _),
    List.filterMap_cons]
  cases (table.get id).initializer? <;> rfl

/-- What is pending depends on the states of the classes and on their methods. -/
theorem pendingInitializers_congr {after : ClassTable} {ids : List ClassId}
    (states : ∀ id ∈ ids, (after.get id).initState = (table.get id).initState)
    (initializers : ∀ id ∈ ids, (after.get id).initializer? = (table.get id).initializer?) :
    after.pendingInitializers ids = table.pendingInitializers ids := by
  induction ids with
  | nil => rfl
  | cons id above ih =>
      have same := states id (.head _)
      by_cases fresh : (table.get id).initState = .uninitialized
      · rw [pendingInitializers_of_fresh fresh, pendingInitializers_of_fresh (same.trans fresh),
          initializers id (.head _), ih (fun other member => states other (.tail _ member))
            fun other member => initializers other (.tail _ member)]
      · rw [pendingInitializers_of_begun fresh, pendingInitializers_of_begun fun still =>
          fresh (same.symm.trans still)]

end ClassTable

/-- The innermost frame of an execution that has frames. -/
theorem Execution.Stands.innermost {exec : Execution} {table : ClassTable}
    {saved : List SavedFrame} {count : Nat} (stands : exec.Stands table saved)
    (live : saved.length = count + 1) :
    ∃ id, exec.method = some id ∧ ∃ callers,
      saved = (exec.startSp, FrameContext.read exec.stack exec.startSp) :: callers := by
  cases current : exec.method with
  | none =>
      rw [(stands.idle current).1] at live
      cases live
  | some id =>
      refine ⟨id, rfl, ?_⟩
      cases stands.chains id current with
      | host room host bottom => exact ⟨[], rfl⟩
      | caller called linked below chains => exact ⟨_, rfl⟩

namespace Machine

/-- The initializers that have to run before a class is used, its own first. -/
def pendingInitializers (machine : Machine) (id : ClassId) : List MethodId :=
  machine.registry.pendingInitializers (machine.registry.superChain id)

/-- The machine in a frame of an initializer, pushed by the instruction at a pc. -/
def launch (machine : Machine) (method : MethodId) (pc : UInt32) : Machine :=
  machine.modifyExec fun exec => exec.enter (machine.method method) method pc pc

/-- Whether a frame of an initializer fits on top of the current one. -/
structure Takes (machine : Machine) (method : MethodId) : Prop where
  own : (machine.registry.get method.owner).initializer? = some method
  linked : machine.registry.HasMethod method
  claimed : (machine.method method).frameArgSlots.toNat ≤ machine.exec.stack.sp
  bounded : machine.exec.stack.sp ≤ machine.exec.stack.limit

namespace Takes

variable {machine : Machine} {method : MethodId} (takes : machine.Takes method)
  (fit : machine.registry.Fit) (pc : UInt32)

include takes fit

theorem arguments : (machine.method method).frameArgSlots.toNat = 0 := by
  have none := fit.initializers method.owner method takes.linked.1 takes.own
  exact congrArg UInt16.toNat none

theorem offers {saved : List SavedFrame}
    (stands : machine.exec.Stands machine.registry.toClassTable saved) :
    machine.exec.Offers (machine.method method).frameArgSlots.toNat := by
  rw [takes.arguments fit]
  exact stands.offers

theorem stands {saved : List SavedFrame}
    (stands : machine.exec.Stands machine.registry.toClassTable saved) :
    (machine.launch method pc).exec.Stands machine.registry.toClassTable
      ((machine.exec.stack.sp + 3, ⟨machine.exec.method, pc, pc, machine.exec.startSp⟩) ::
        saved) := by
  have entered := stands_enter takes.linked takes.claimed takes.bounded
    (fun fit _ stands => takes.offers fit stands) pc pc fit stands
  rw [takes.arguments fit] at entered
  exact entered

theorem methods {saved : List SavedFrame}
    (stands : machine.exec.Stands machine.registry.toClassTable saved) :
    (machine.launch method pc).methods = method :: machine.methods :=
  methods_enter takes.linked takes.claimed takes.bounded
    (fun fit _ stands => takes.offers fit stands) pc pc fit stands

theorem sp_launch : (machine.launch method pc).exec.stack.sp =
    machine.exec.stack.sp + 4 + (machine.method method).frameLocals := by
  have size := machine.exec.stack.sp_enterFrame
    ⟨machine.exec.method, pc, pc, machine.exec.startSp⟩
    (machine.method method).frameArgSlots.toNat (machine.method method).frameLocals
  rw [takes.arguments fit, Nat.sub_zero, FrameContext.size] at size
  rw [launch, modifyExec, Execution.enter]
  dsimp only
  rw [takes.arguments fit]
  exact size

/-- What was on the stack is there still. -/
theorem cell {index : Nat} (below : index < machine.exec.stack.sp) :
    (machine.launch method pc).exec.stack.cell index = machine.exec.stack.cell index := by
  apply machine.exec.stack.cell_enterFrame_of_lt _ _ _ index takes.claimed
    (machine.method method).frameArgSlots_le_frameLocals
  rw [takes.arguments fit]
  exact below

/-- The return from the frame of an initializer leads back to where it was pushed. -/
theorem resumes {saved : List SavedFrame}
    (stands : machine.exec.Stands machine.registry.toClassTable saved) {caller running : MethodId}
    (called : machine.exec.method = some caller) {left : Machine}
    (same : (machine.exec.enter (machine.method method) running pc pc).SameFrame left.exec)
    {value : Value} {step : Step} {final : Machine}
    (returns : Guest.returnFromFrame value left = .ok step final) :
    final.exec.method = some caller ∧ final.exec.pc = pc ∧
      final.exec.startSp = machine.exec.startSp ∧
      final.exec.stack.toList = machine.exec.stack.toList ++ value.cells := by
  have encodable : ∀ id, machine.exec.method = some id → id.Encodable :=
    fun id current => fit.encodable_of_hasMethod (stands.linked id current)
  have saves := stands.encodable encodable takes.bounded pc pc
  obtain ⟨resumed, -⟩ := ends_of_ok returns (Guest.ends_returnFromFrame value same.method)
  obtain ⟨restored, place, start, slots⟩ :=
    Execution.resume_of_caller takes.claimed same called (encodable caller called) saves.2 value
  have whole : machine.exec.stack.toList.take machine.exec.stack.sp =
      machine.exec.stack.toList := by
    apply List.take_of_length_le
    rw [Stack.toList, Stack.length_cells]
  rw [takes.arguments fit, Nat.sub_zero, whole] at slots
  rw [resumed]
  exact ⟨restored, place, start, slots⟩

end Takes

/-- Whether a machine has changed, if at all, in nothing that concerns frames, and the
static fields that there were exist still. -/
structure Equips (before after : Machine) : Prop extends Stays before after where
  prepared : ∀ id, before.registry.Has id → (before.cls id).Prepared → (after.cls id).Prepared

theorem Equips.trans {first second third : Machine} (left : first.Equips second)
    (right : second.Equips third) : first.Equips third where
  toStays := left.toStays.trans right.toStays
  prepared id known prepared :=
    right.prepared id (left.grows.has known) (left.prepared id known prepared)

theorem Calm.equips {before after : Machine} (calm : before.Calm after) : before.Equips after where
  toStays := calm.toStays
  prepared := calm.rests.table.prepared

theorem Closed.equips_setState {machine : Machine} (closed : machine.Closed) (id : ClassId)
    (state : InitState) :
    machine.Equips (machine.modifyClass id fun cls => { cls with initState := state }) where
  toStays := closed.stays_setState id state
  prepared other known prepared := by
    have same : ((machine.modifyClass id fun cls => { cls with initState := state }).cls other) =
        if id = other then { machine.cls other with initState := state } else machine.cls other :=
      ClassTable.get_modify _ id other _ known
    rw [same]
    split <;> exact prepared

/-- Whether frames of initializers have been pushed one on the other, the first by the
instruction at a pc. -/
inductive Raises : Machine → UInt32 → List MethodId → Machine → Prop
  | rest {before after : Machine} {pc : UInt32} (stays : before.Equips after) :
      Raises before pc [] after
  | push {before middle after : Machine} {pc : UInt32} {method : MethodId} {above : List MethodId}
      (stays : before.Equips middle) (takes : middle.Takes method)
      (raises : Raises (middle.launch method pc) 0 above after) :
      Raises before pc (method :: above) after

section

variable {before middle after : Machine} {pc : UInt32} {pending : List MethodId}

theorem advances_launch (closed : before.Closed) (method : MethodId) (pc : UInt32) :
    before.Advances (before.launch method pc) := advances_modifyExec closed rfl

theorem Equips.raises (stays : before.Equips middle) (raises : Raises middle pc pending after) :
    Raises before pc pending after := by
  cases raises with
  | rest stays' => exact .rest (stays.trans stays')
  | push stays' takes raises => exact .push (stays.trans stays') takes raises

theorem Raises.trans_equips (raises : Raises before pc pending middle) (stays : middle.Equips after) :
    Raises before pc pending after := by
  induction raises with
  | rest stays' => exact .rest (stays'.trans stays)
  | push stays' takes raises ih => exact .push stays' takes (ih stays)

theorem Raises.advances (raises : Raises before pc pending after) : before.Advances after := by
  induction raises with
  | rest stays => exact stays.advances
  | push stays takes raises ih => exact (stays.advances.trans (advances_launch stays.closed _ _)).trans ih

theorem Raises.prepared (raises : Raises before pc pending after) {id : ClassId}
    (known : before.registry.Has id) (prepared : (before.cls id).Prepared) :
    (after.cls id).Prepared := by
  induction raises with
  | rest stays => exact stays.prepared id known prepared
  | push stays takes raises ih => exact ih (stays.grows.has known) (stays.prepared id known prepared)

variable (fit : after.registry.Fit) {saved : List SavedFrame}
  (stands : before.exec.Stands before.registry.toClassTable saved)

include fit stands

/-- Frames of initializers lie on top of the others, the first one at the bottom. They
take nothing off the stack. -/
theorem Raises.frames (raises : Raises before pc pending after) :
    ∃ raised, after.exec.Stands after.registry.toClassTable (raised ++ saved) ∧
      raised.length = pending.length ∧ after.methods = pending.reverse ++ before.methods ∧
      ∀ index < before.exec.stack.sp,
        after.exec.stack.cell index = before.exec.stack.cell index := by
  induction raises generalizing saved with
  | rest stays =>
      refine ⟨[], stays.stands stands, rfl, stays.methods_eq stands, ?_⟩
      intro index _
      rw [stays.exec.stack]
  | @push before middle after pc method above stays takes raises ih =>
      have fitMiddle : middle.registry.Fit :=
        fit_of_growsTo stays.closed raises.advances.closed raises.advances.grows fit
      have standing := stays.stands stands
      obtain ⟨raised, stands', length, methods, cells⟩ :=
        ih fit (takes.stands fitMiddle pc standing)
      refine ⟨raised.concat (middle.exec.stack.sp + 3,
        ⟨middle.exec.method, pc, pc, middle.exec.startSp⟩), ?_, ?_, ?_, ?_⟩
      · rw [List.concat_append]
        exact stands'
      · rw [List.length_concat, length]
        rfl
      · rw [methods, takes.methods fitMiddle pc standing, stays.methods_eq stands,
          List.reverse_cons, List.append_assoc]
        rfl
      · intro index below
        rw [← stays.exec.stack] at below ⊢
        have inside : index < (middle.launch method pc).exec.stack.sp := by
          rw [takes.sp_launch fitMiddle pc]
          omega
        exact (cells index inside).trans (takes.cell fitMiddle pc below)

/-- The bottom one of the frames has saved where its caller goes on, and all that its
caller has on the stack lies below it. -/
theorem Raises.lowest {method : MethodId} {above : List MethodId}
    (raises : Raises before pc (method :: above) after) :
    ∃ middle raised, before.Stays middle ∧ middle.Takes method ∧ middle.registry.Fit ∧
      after.exec.Stands after.registry.toClassTable
        (raised ++ (middle.exec.stack.sp + 3,
          ⟨middle.exec.method, pc, pc, middle.exec.startSp⟩) :: saved) ∧
      ∀ index ≤ middle.exec.stack.sp + 3,
        after.exec.stack.cell index = (middle.launch method pc).exec.stack.cell index := by
  cases raises with
  | @push _ middle _ _ _ _ stays takes raises =>
      have fitMiddle : middle.registry.Fit :=
        fit_of_growsTo stays.closed raises.advances.closed raises.advances.grows fit
      obtain ⟨raised, stands', -, -, cells⟩ :=
        raises.frames fit (takes.stands fitMiddle pc (stays.stands stands))
      refine ⟨middle, raised, stays.toStays, takes, fitMiddle, stands', ?_⟩
      intro index inside
      apply cells
      rw [takes.sp_launch fitMiddle pc]
      omega

/-- Once the bottom one of the frames is the innermost frame again, its return makes the
caller go on at the pc that pushed it, with its own stack. -/
theorem Raises.resumes {method caller : MethodId} {above : List MethodId}
    (raises : Raises before pc (method :: above) after) (current : before.exec.method = some caller)
    {left : Machine} {deeper : List SavedFrame}
    (standing : left.exec.Stands left.registry.toClassTable deeper)
    (top : deeper.length = saved.length + 1)
    (keeps : after.exec.KeepsAt saved.length left.exec) {value : Value} {step : Step}
    {final : Machine} (returns : Guest.returnFromFrame value left = .ok step final) :
    final.exec.method = some caller ∧ final.exec.pc = pc ∧
      final.exec.startSp = before.exec.startSp ∧
      final.exec.stack.toList = before.exec.stack.toList ++ value.cells := by
  obtain ⟨middle, raised, stays, takes, fitMiddle, stands', cells⟩ := raises.lowest fit stands
  have called : middle.exec.method = some caller := stays.exec.method.trans current
  have bottom := Execution.savedAt_of_append stands'.saved_eq
  -- the frame that is left is the one that was pushed first
  obtain ⟨running, busy, callers, chain⟩ := standing.innermost top
  have place : callers.length = saved.length := by
    rw [chain, List.length_cons] at top
    exact Nat.succ.inj top
  have innermost := @Execution.savedAt_of_append left.exec [] _ _
    (standing.saved_eq.trans chain)
  rw [place, keeps.saved, bottom] at innermost
  have start : left.exec.startSp = middle.exec.stack.sp + 3 :=
    (congrArg Prod.fst (Option.some.inj innermost)).symm
  have same : (middle.exec.enter (middle.method method) running pc pc).SameFrame left.exec := by
    refine ⟨busy, ?_, ?_⟩
    · rw [start, Execution.startSp_enter, takes.arguments fitMiddle, Nat.sub_zero]
    · intro index inside
      rw [Execution.startSp_enter, takes.arguments fitMiddle, Nat.sub_zero] at inside
      exact (keeps.cells _ bottom index inside).trans (cells index inside)
  have resumed := takes.resumes fitMiddle pc (stays.stands stands) called same returns
  rw [stays.exec.startSp, stays.exec.stack] at resumed
  exact resumed

end

/-! ## Along a chain of superclasses -/

/-- How the use of the first of some classes goes, the others being its superclasses: the
frames of the pending initializers are pushed, and the answer says whether there are any. The
static fields of the class that is used exist from then on. -/
structure Readies (machine : Machine) (ids : List ClassId) (pc : UInt32) (pushed : Bool)
    (after : Machine) : Prop where
  raises : machine.Raises pc (machine.registry.pendingInitializers ids) after
  answer : pushed = true ↔ machine.registry.pendingInitializers ids ≠ []
  prepared : ∀ id above, ids = id :: above → (machine.cls id).initState = .uninitialized →
    (after.cls id).Prepared

/-- Whether some of the frames of the pending initializers were pushed, from the lowest one on. -/
def Interrupts (machine : Machine) (ids : List ClassId) (pc : UInt32) (after : Machine) : Prop :=
  ∃ started, started <+: machine.registry.pendingInitializers ids ∧ machine.Raises pc started after

theorem Equips.interrupts {machine after : Machine} {ids : List ClassId} {pc : UInt32}
    (stays : machine.Equips after) : machine.Interrupts ids pc after :=
  ⟨[], List.nil_prefix, .rest stays⟩

theorem readies_nil {machine : Machine} (closed : machine.Closed) (pc : UInt32) :
    machine.Readies [] pc false machine where
  raises := .rest closed.calm_refl.equips
  answer := by simp [ClassTable.pendingInitializers]
  prepared := nofun

theorem readies_of_begun {machine : Machine} (closed : machine.Closed) {id : ClassId}
    {above : List ClassId} (begun : (machine.cls id).initState ≠ .uninitialized) (pc : UInt32) :
    machine.Readies (id :: above) pc false machine := by
  have none : machine.registry.pendingInitializers (id :: above) = [] :=
    ClassTable.pendingInitializers_of_begun begun
  refine ⟨?_, by simp [none], ?_⟩
  · rw [none]
    exact .rest closed.calm_refl.equips
  · rintro _ _ ⟨⟩ fresh
    exact (begun fresh).elim

/-- What the beginning of the initialization of a class is to its superclasses: their
initializers are pending as before. -/
structure Opens (machine after : Machine) (id : ClassId) (above : List ClassId) : Prop where
  stays : machine.Equips after
  prepared : (after.cls id).Prepared
  initializer : (after.cls id).initializer? = (machine.cls id).initializer?
  pending : after.registry.pendingInitializers above = machine.registry.pendingInitializers above

theorem Calm.opens {machine first : Machine} (calm : machine.Calm first)
    (table : machine.registry.toClassTable.Closed) {id : ClassId} {above : List ClassId}
    (known : ∀ other ∈ id :: above, machine.registry.Has other) (lowest : id ∉ above)
    (prepared : (first.cls id).Prepared) :
    machine.Opens (first.modifyClass id fun cls => { cls with initState := .initializing })
      id above := by
  have begins := calm.closed.equips_setState id .initializing
  have stays := calm.equips.trans begins
  have initializers : ∀ other ∈ id :: above, ((first.modifyClass id fun cls =>
      { cls with initState := .initializing }).cls other).initializer? =
        (machine.cls other).initializer? :=
    fun other member => stays.grows.declaredMethod? table begins.closed.registry.table
      (known other member) _ _
  refine ⟨stays, begins.prepared id (calm.grows.has (known id (.head _))) prepared,
    initializers id (.head _), ?_⟩
  apply ClassTable.pendingInitializers_congr
  · intro other member
    have known := known other (.tail _ member)
    refine (ClassTable.initState_setState (calm.grows.has known)).trans ?_
    rw [if_neg fun same : id = other => lowest (same ▸ member)]
    exact calm.rests.table.state other known
  · exact fun other member => initializers other (.tail _ member)

namespace Opens

variable {machine begun last after : Machine} {id : ClassId} {above : List ClassId} {pc : UInt32}
  (opens : machine.Opens begun id above) (fresh : (machine.cls id).initState = .uninitialized)

include opens fresh

/-- The initializers of the superclasses are all that is pending of a class without one. -/
theorem pending_of_bare (bare : (begun.cls id).initializer? = none) :
    machine.registry.pendingInitializers (id :: above) =
      begun.registry.pendingInitializers above := by
  have none : (machine.registry.get id).initializer? = none := opens.initializer.symm.trans bare
  rw [ClassTable.pendingInitializers_of_fresh fresh, none, opens.pending]
  rfl

theorem pending_of_some {method : MethodId} (found : (begun.cls id).initializer? = some method) :
    machine.registry.pendingInitializers (id :: above) =
      method :: begun.registry.pendingInitializers above := by
  have some : (machine.registry.get id).initializer? = some method :=
    opens.initializer.symm.trans found
  rw [ClassTable.pendingInitializers_of_fresh fresh, some, opens.pending]
  rfl

theorem readies_of_bare (bare : (begun.cls id).initializer? = none)
    (known : begun.registry.Has id) {pushed : Bool} (readies : begun.Readies above pc pushed last)
    (settles : last.Equips after) : machine.Readies (id :: above) pc pushed after := by
  have pending := opens.pending_of_bare fresh bare
  have raises := readies.raises.trans_equips settles
  refine ⟨?_, ?_, ?_⟩
  · rw [pending]
    exact opens.stays.raises raises
  · rw [pending]
    exact readies.answer
  · rintro _ _ ⟨⟩ -
    exact raises.prepared known opens.prepared

theorem readies_of_pushed {method : MethodId} (found : (begun.cls id).initializer? = some method)
    (takes : begun.Takes method) (known : begun.registry.Has id) {pushed : Bool}
    (readies : (begun.launch method pc).Readies above 0 pushed after) :
    machine.Readies (id :: above) pc true after := by
  have pending := opens.pending_of_some fresh found
  refine ⟨?_, by simp [pending], ?_⟩
  · rw [pending]
    exact .push opens.stays takes readies.raises
  · rintro _ _ ⟨⟩ -
    exact readies.raises.prepared known opens.prepared

theorem interrupts_of_bare (bare : (begun.cls id).initializer? = none)
    (ends : begun.Interrupts above pc after) : machine.Interrupts (id :: above) pc after := by
  obtain ⟨started, first, raises⟩ := ends
  rw [Interrupts, opens.pending_of_bare fresh bare]
  exact ⟨started, first, opens.stays.raises raises⟩

theorem interrupts_of_pushed {method : MethodId}
    (found : (begun.cls id).initializer? = some method) (takes : begun.Takes method)
    (ends : (begun.launch method pc).Interrupts above 0 after) :
    machine.Interrupts (id :: above) pc after := by
  obtain ⟨started, first, raises⟩ := ends
  rw [Interrupts, opens.pending_of_some fresh found]
  exact ⟨method :: started, (List.prefix_cons_inj method).mpr first, .push opens.stays takes raises⟩

end Opens

end Machine

namespace Guest

open Machine

theorem ensureInitialized_of_fresh {machine : Machine} {id : ClassId}
    (fresh : (machine.cls id).initState = .uninitialized) (pc : UInt32) :
    ensureInitialized id pc machine =
      initializeChain (machine.registry.superChain id) pc machine := by
  simp only [ensureInitialized, bind, EStateM.bind, run_get, fresh]

/-- A class that begins with a frame leaves the rest to its superclasses. -/
theorem initializeChain_of_pushed {machine first entered : Machine} {id : ClassId}
    {above : List ClassId} {pc : UInt32} {method : MethodId}
    (fresh : (machine.cls id).initState = .uninitialized)
    (prepares : prepareStatics id machine = .ok ⟨⟩ first)
    (found : ((first.modifyClass id fun cls => { cls with initState := .initializing }).cls
      id).initializer? = some method)
    (pushes : pushFrame method pc pc (first.modifyClass id fun cls =>
      { cls with initState := .initializing }) = .ok ⟨⟩ entered) :
    initializeChain (id :: above) pc machine =
      (initializeChain above 0 >>= fun _ => pure true) entered := by
  simp only [initializeChain, setInitState, pushInitializer, onThrow, bind, EStateM.bind, run_get,
    run_modify, fresh, prepares, found, pushes, pure, EStateM.pure, if_true]
  cases initializeChain above 0 entered <;> rfl

variable {machine : Machine} (closed : machine.Closed)

include closed

/-- A class with an initializer gets a frame for it, or the step throws and leaves all frames
alone. -/
theorem ends_pushInitializer {id : ClassId} (known : machine.registry.Has id) (pc : UInt32) :
    Ends (pushInitializer id pc) machine
      (fun pushed after =>
        ((machine.cls id).initializer? = none ∧ pushed = false ∧ after = machine) ∨
        ∃ method, (machine.cls id).initializer? = some method ∧ pushed = true ∧
          machine.Takes method ∧ after = machine.launch method pc)
      fun _ after => machine.Equips after := by
  rw [pushInitializer, ends_bind, ends_get]
  split
  next none => exact ends_pure.mpr (.inl ⟨none, rfl, rfl⟩)
  next method found =>
      have own := ClassTable.owner_of_initializer? closed.registry.table known found
      rw [ends_bind, ends_onThrow]
      refine (ends_pushFrame_calm closed method pc pc).mono ?_ fun _ _ calm =>
        calm.equips.trans (calm.closed.equips_setState id .failed)
      rintro - after ⟨claimed, bounded, rfl⟩
      refine ends_pure.mpr (.inr ⟨method, found, rfl, ⟨?_, ?_, claimed, bounded⟩, rfl⟩)
      · rw [own]
        exact found
      · exact ClassTable.hasMethod_of_initializer? closed.registry.table known found

/-- Initialization pushes the frames of the pending initializers. If something is thrown on
the way, the frames that were pushed before stay. -/
theorem readies_initializeChain {ids : List ClassId}
    (known : ∀ id ∈ ids, machine.registry.Has id) (once : ids.Nodup) (pc : UInt32) :
    Ends (initializeChain ids pc) machine (fun pushed after => machine.Readies ids pc pushed after)
      fun _ after => machine.Interrupts ids pc after := by
  induction ids generalizing machine pc with
  | nil => exact ends_pure.mpr (readies_nil closed pc)
  | cons id above ih =>
      have here := known id (.head _)
      obtain ⟨lowest, once⟩ := List.nodup_cons.mp once
      rw [initializeChain, ends_bind, ends_get]
      split
      next state => exact ends_pure.mpr (readies_of_begun closed (by rw [state]; rintro ⟨⟩) pc)
      next state => exact ends_pure.mpr (readies_of_begun closed (by rw [state]; rintro ⟨⟩) pc)
      next =>
          rw [ends_bind, ends_get]
          have raises : ∀ kind message, Moves Calm (raise kind message : Guest Bool) machine
              fun _ _ => False := fun kind message => calm_raise closed kind message
          exact Ends.mono (raises _ _) (fun _ _ never => never.2.elim) fun _ _ calm =>
            calm.equips.interrupts
      next fresh =>
          rw [ends_bind]
          refine Ends.mono (calm_prepareStatics closed here) ?_ fun _ _ calm => calm.equips.interrupts
          rintro - first ⟨calm, prepared⟩
          rw [ends_bind, setInitState, ends_modify, ends_bind]
          have opens := calm.opens closed.registry.table known lowest prepared
          generalize first.modifyClass id (fun cls => { cls with initState := .initializing }) =
            second at opens ⊢
          have begun := opens.stays.closed
          have here := opens.stays.grows.has here
          have above' : ∀ other ∈ above, second.registry.Has other :=
            fun other member => opens.stays.grows.has (known other (.tail _ member))
          refine (ends_pushInitializer begun here pc).mono ?_ fun _ _ failed =>
            (opens.stays.trans failed).interrupts
          rintro pushed third (⟨none, rfl, rfl⟩ | ⟨method, found, rfl, takes, rfl⟩)
          · rw [ends_bind, ends_onThrow]
            refine (ih begun above' once _).mono ?_ ?_
            · intro pushedAbove last readies
              have closed := readies.raises.advances.closed
              cases pushedAbove with
              | true =>
                  exact ends_pure.mpr (opens.readies_of_bare fresh none here readies
                    closed.calm_refl.equips)
              | false =>
                  change Ends (setInitState id .initialized >>= fun _ => pure false) last _ _
                  rw [ends_bind, setInitState, ends_modify]
                  exact ends_pure.mpr (opens.readies_of_bare fresh none here readies
                    (closed.equips_setState id .initialized))
            · rintro - last ⟨started, first, raises⟩
              exact opens.interrupts_of_bare fresh none ⟨started, first, raises.trans_equips
                (raises.advances.closed.equips_setState id .failed)⟩
          · rw [ends_bind, ends_onThrow]
            refine (ih (advances_launch begun method pc).closed above' once 0).mono ?_ ?_
            · exact fun _ _ readies =>
                ends_pure.mpr (opens.readies_of_pushed fresh found takes here readies)
            · exact fun _ _ ends => opens.interrupts_of_pushed fresh found takes ends

/-- The frames that the use of a class pushes are those of its pending initializers. -/
theorem raises_ensureInitialized {id : ClassId} (known : machine.registry.Has id) (pc : UInt32) :
    Ends (ensureInitialized id pc) machine
      (fun pushed after =>
        machine.Raises pc (machine.pendingInitializers id) after ∧
          (pushed = true ↔ machine.pendingInitializers id ≠ []) ∧
          ((machine.cls id).initState = .uninitialized → (after.cls id).Prepared))
      fun _ after => ∃ started, started <+: machine.pendingInitializers id ∧
        machine.Raises pc started after := by
  obtain ⟨above, chain⟩ := machine.registry.superChain_eq_cons id
  have begun : (machine.cls id).initState ≠ .uninitialized →
      machine.Readies (machine.registry.superChain id) pc false machine := by
    intro state
    rw [chain]
    exact readies_of_begun closed state pc
  have readies : Ends (ensureInitialized id pc) machine
      (fun pushed after => machine.Readies (machine.registry.superChain id) pc pushed after)
      fun _ after => machine.Interrupts (machine.registry.superChain id) pc after := by
    rw [ensureInitialized, ends_bind, ends_get]
    split
    next state => exact ends_pure.mpr (begun (by rw [state]; rintro ⟨⟩))
    next state => exact ends_pure.mpr (begun (by rw [state]; rintro ⟨⟩))
    next =>
        exact readies_initializeChain closed
          (fun above member => ClassTable.has_of_mem_superChain closed.registry.table known member)
          (machine.registry.nodup_superChain id) pc
  refine readies.mono ?_ fun _ _ failed => failed
  rintro pushed after ⟨raises, answer, prepared⟩
  exact ⟨raises, answer, prepared id above chain⟩

end Guest

end Jvm
