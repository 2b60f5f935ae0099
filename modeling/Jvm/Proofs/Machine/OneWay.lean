import Jvm.Machine.Step
import Jvm.Proofs.Machine.Statics

/-!
# Initialization goes one way

Along every run whose code keeps to its frames and calls no class initializer by name,
the initialization of a class begins at most once, and ends at most once. Its static
fields exist from its beginning on. An instruction that uses a class too early pushes
the initializers that are pending and runs again once they have returned.
-/

namespace Jvm

namespace Machine

/-- Whether an instruction uses a class, in the machine that the resolution of its constant
leaves. `owner` is the class of the method. -/
inductive Uses (machine : Machine) (owner : ClassId) : Instr → ClassId → Machine → Prop
  | getStatic {index : UInt16} {field : ResolvedField} {resolved : Machine}
      (found : Guest.resolveField owner index machine = .ok field resolved)
      (static : field.isStatic = true) :
      Uses machine owner (.getStatic index) field.owner resolved
  | putStatic {index : UInt16} {field : ResolvedField} {resolved : Machine}
      (found : Guest.resolveField owner index machine = .ok field resolved)
      (static : field.isStatic = true) :
      Uses machine owner (.putStatic index) field.owner resolved
  | invokeStatic {index : UInt16} {method : ResolvedMethod} {resolved : Machine}
      (found : Guest.resolveMethod owner index machine = .ok method resolved)
      (static : method.isStatic = true) :
      Uses machine owner (.invokeStatic index) method.method.owner resolved
  | newObject {index : UInt16} {cls : ClassId} {resolved : Machine}
      (found : Guest.resolveClass owner index machine = .ok cls resolved)
      (concrete : ((resolved.cls cls).isInterface || (resolved.cls cls).isAbstract) = false) :
      Uses machine owner (.newObject index) cls resolved

/-- Whether the current frame of a machine goes on at a pc, with the stack that it has,
once the frame that comes next on top of it returns. -/
def Resumes (bounds : Bounds) (before : Machine) (pc : UInt32) (after : Machine) : Prop :=
  ∀ (left final : Machine) (value : Value) (step : Step),
    Relation.ReflTransGen (Spans bounds before.exec.id before.exec.saved.length) after left →
    left.registry.Fit → left.exec.id = before.exec.id →
    left.exec.saved.length = before.exec.saved.length + 1 →
    Guest.returnFromFrame value left = .ok step final →
    final.exec.method = before.exec.method ∧ final.exec.pc = pc ∧
      final.exec.startSp = before.exec.startSp ∧
      final.exec.stack.toList = before.exec.stack.toList ++ value.cells

section

variable {machine resolved after : Machine} {owner cls : ClassId} {instr : Instr}

theorem Uses.calm (uses : machine.Uses owner instr cls resolved) (closed : machine.Closed) :
    machine.Calm resolved ∧ resolved.registry.Has cls := by
  cases uses with
  | getStatic found static =>
      obtain ⟨calm, known⟩ := ends_of_ok found (Guest.calm_resolveField closed owner _)
      exact ⟨calm, known⟩
  | putStatic found static =>
      obtain ⟨calm, known⟩ := ends_of_ok found (Guest.calm_resolveField closed owner _)
      exact ⟨calm, known⟩
  | invokeStatic found static =>
      obtain ⟨calm, linked⟩ := ends_of_ok found (Guest.calm_resolveMethod closed owner _)
      exact ⟨calm, linked.1⟩
  | newObject found concrete =>
      obtain ⟨calm, known⟩ := ends_of_ok found (Guest.calm_resolveClass closed owner _)
      exact ⟨calm, known⟩

/-- An instruction that uses a class too early ends where the initializers have been pushed. -/
theorem Uses.execute {id : MethodId} {pc : UInt32}
    (uses : machine.Uses id.owner instr cls resolved)
    (initializes : Guest.ensureInitialized cls pc resolved = .ok true after) (reentry : Reentry)
    (code : Array UInt8) (next : UInt32) :
    Guest.execute reentry id code pc next instr machine = .ok .next after := by
  cases uses with
  | getStatic found static =>
      simp only [Guest.execute, Guest.getStatic, Guest.staticField?, bind, EStateM.bind, found,
        static, initializes, pure, EStateM.pure, Bool.not_true, Bool.false_eq_true, if_false, if_true]
  | putStatic found static =>
      simp only [Guest.execute, Guest.setStatic, Guest.staticField?, bind, EStateM.bind, found,
        static, initializes, pure, EStateM.pure, Bool.not_true, Bool.false_eq_true, if_false, if_true]
  | invokeStatic found static =>
      simp only [Guest.execute, Guest.invokeStatic, bind, EStateM.bind, found, static, initializes,
        pure, EStateM.pure, Bool.not_true, Bool.false_eq_true, if_false, if_true]
  | newObject found concrete =>
      simp only [Guest.execute, Guest.pushInstance, bind, EStateM.bind, found, run_get, concrete,
        initializes, pure, EStateM.pure, Bool.false_eq_true, if_false, if_true]

namespace Sound

variable {bounds : Bounds} {start : Machine}

/-- Initialization stays in order along a run that calls no class initializer by name. -/
theorem progresses_of_proceeds (sound : start.Sound) (orderly : start.Orderly)
    (run : Relation.ReflTransGen (Proceeds bounds) start machine) (fit : machine.registry.Fit) :
    machine.Sound ∧ start.registry.GrowsTo machine.registry.toClassTable ∧
      start.Progresses machine := by
  induction run with
  | refl =>
      refine ⟨sound, .refl _, ?_⟩
      exact orderly.progresses_of_rests sound.closed.registry sound.closed.registry (.refl _)
        (.refl _) (.refl _)
  | @tail before after run proceeds ih =>
      have reached : before.Sound := sound.of_reaches
        (Relation.ReflTransGen.mono (fun _ _ proceeds => Proceeds.evolves proceeds) _ _ run)
      have follows : before.Follows True after :=
        reached.follows_of_evolves proceeds.evolves fun _ => proceeds
      have fitBefore := fit_of_growsTo reached.closed follows.sound.closed follows.grows fit
      obtain ⟨-, grows, progresses⟩ := ih fitBefore
      refine ⟨follows.sound, grows.trans follows.grows, ?_⟩
      exact progresses.trans grows (follows.progresses trivial fit progresses.orderly)

/-- The use of a class pushes the initializers that are pending, those of superclasses on
top. -/
theorem methods_of_ensureInitialized (sound : machine.Sound) {id : ClassId}
    (known : machine.registry.Has id) {pc : UInt32} {pushed : Bool}
    (initializes : Guest.ensureInitialized id pc machine = .ok pushed after)
    (fit : after.registry.Fit) :
    after.methods = (machine.pendingInitializers id).reverse ++ machine.methods := by
  obtain ⟨raises, -, -⟩ := ends_of_ok initializes (Guest.raises_ensureInitialized sound.closed known pc)
  have fitBefore := fit_of_growsTo sound.closed raises.advances.closed raises.advances.grows fit
  obtain ⟨-, -, -, methods, -⟩ := raises.frames fit (sound.stands fitBefore machine.exec (.head _))
  exact methods

/-- If something is thrown on the way, the frames that were pushed before are those of the
first of the pending initializers. -/
theorem methods_of_ensureInitialized_error (sound : machine.Sound) {id : ClassId}
    (known : machine.registry.Has id) {pc : UInt32} {thrown : Throw}
    (fails : Guest.ensureInitialized id pc machine = .error thrown after)
    (fit : after.registry.Fit) :
    ∃ started, started <+: machine.pendingInitializers id ∧
      after.methods = started.reverse ++ machine.methods := by
  obtain ⟨started, first, raises⟩ :=
    ends_of_error fails (Guest.raises_ensureInitialized sound.closed known pc)
  have fitBefore := fit_of_growsTo sound.closed raises.advances.closed raises.advances.grows fit
  obtain ⟨-, -, -, methods, -⟩ := raises.frames fit (sound.stands fitBefore machine.exec (.head _))
  exact ⟨started, first, methods⟩

/-- An instruction that uses a class too early leaves the stack of its frame alone, and runs
again once the initializers have returned. -/
theorem resumes_of_uses (sound : machine.Sound) {id : MethodId}
    (current : machine.exec.method = some id) (uses : machine.Uses owner instr cls resolved)
    {pc : UInt32} (initializes : Guest.ensureInitialized cls pc resolved = .ok true after)
    (fit : after.registry.Fit) :
    (∀ index < machine.exec.stack.sp,
        after.exec.stack.cell index = machine.exec.stack.cell index) ∧
      ((∀ other ∈ machine.parked, other.id ≠ machine.exec.id) →
        machine.Resumes bounds pc after) := by
  obtain ⟨calm, known⟩ := uses.calm sound.closed
  have begins := Guest.begins_ensureInitialized calm.closed known pc
  have extended : machine.Extends False after :=
    (calm.begins.trans (ends_of_ok initializes begins).1).deepens.extends
  obtain ⟨raises, answer, -⟩ :=
    ends_of_ok initializes (Guest.raises_ensureInitialized calm.closed known pc)
  have advances := calm.toStays.advances.trans raises.advances
  have fitBefore := fit_of_growsTo sound.closed advances.closed advances.grows fit
  have stands := sound.stands fitBefore machine.exec (.head _)
  constructor
  · intro index below
    obtain ⟨-, -, -, -, cells⟩ := raises.frames fit (calm.toStays.stands stands)
    rw [calm.exec.stack] at cells
    exact cells index below
  · intro alone left final value step run fitLeft same top returns
    have reached := (sound.follows_of_extends extended).sound
    obtain ⟨old, member, sameOld, keeps⟩ :=
      reached.kept_of_spans run fitLeft (List.mem_cons_self ..) same
    obtain rfl : old = after.exec := by
      rcases List.mem_cons.mp member with rfl | parked
      · rfl
      · rw [advances.parked] at parked
        exact (alone old parked sameOld).elim
    have standing := (reached.of_reaches (Relation.ReflTransGen.mono
      (fun _ _ spans => Spans.evolves spans) _ _ run)).stands fitLeft left.exec (.head _)
    obtain ⟨method, above, pending⟩ := List.exists_cons_of_ne_nil (answer.mp rfl)
    rw [pending] at raises
    have resumed := raises.resumes fit (calm.toStays.stands stands)
      (calm.exec.method.trans current) standing top keeps returns
    rw [calm.exec.startSp, calm.exec.stack] at resumed
    rw [current]
    exact resumed

end Sound

end

/-- The initialization of classes goes one way. A machine starts with initialization in
order and no initializer in a frame. In whatever it reaches where no class initializer is
called by name, the state of a class has only gone on; an initializer has a frame only
once, while its class is being initialized; the static fields of a class that has begun
exist, and no access finds them missing; the use of a class pushes all initializers that
are pending; and the instruction that uses it runs again on the same stack. -/
theorem initialization_one_way (bounds : Bounds) :
    (∀ (config : Config) (classes : ClassPath) (machine : Machine),
        config.stackSlots ≤ FrameContext.encodablePositions →
        Machine.start config classes = .ok machine →
        machine.Sound ∧ machine.Orderly ∧ machine.initializing = []) ∧
      ∀ start machine : Machine, start.Sound → start.Orderly →
        Relation.ReflTransGen (Proceeds bounds) start machine → machine.registry.Fit →
        (∀ id, start.registry.Has id →
          (start.cls id).initState.LeadsTo (machine.cls id).initState) ∧
        machine.initializing.Nodup ∧
        (∀ id ∈ machine.initializing, (machine.cls id).initState = .initializing ∧
          (start.registry.Has id →
            id ∈ start.initializing ∨ (start.cls id).initState = .uninitialized)) ∧
        (∀ id, machine.registry.Has id → (machine.cls id).array = none →
          (machine.cls id).initState ≠ .uninitialized → (machine.cls id).Prepared) ∧
        (∀ id index pc next after, machine.registry.Has id →
          Guest.getStatic id index pc next machine ≠ .error Guest.noStatics after ∧
          Guest.setStatic id index pc next machine ≠ .error Guest.noStatics after) ∧
        (∀ id pc pushed after, machine.registry.Has id →
          Guest.ensureInitialized id pc machine = .ok pushed after → after.registry.Fit →
          after.methods = (machine.pendingInitializers id).reverse ++ machine.methods) ∧
        (∀ id pc thrown after, machine.registry.Has id →
          Guest.ensureInitialized id pc machine = .error thrown after → after.registry.Fit →
          ∃ started, started <+: machine.pendingInitializers id ∧
            after.methods = started.reverse ++ machine.methods) ∧
        ∀ id instr cls resolved pc after, machine.exec.method = some id →
          machine.Uses id.owner instr cls resolved →
          Guest.ensureInitialized cls pc resolved = .ok true after → after.registry.Fit →
          (∀ reentry code next,
            Guest.execute reentry id code pc next instr machine = .ok .next after) ∧
          (∀ index < machine.exec.stack.sp,
            after.exec.stack.cell index = machine.exec.stack.cell index) ∧
          ((∀ other ∈ machine.parked, other.id ≠ machine.exec.id) →
            machine.Resumes bounds pc after) := by
  constructor
  · intro config classes machine bounded started
    exact ⟨sound_of_start bounded started, orderly_of_start bounded started⟩
  · intro start machine sound orderly run fit
    obtain ⟨sound', -, progresses⟩ := sound.progresses_of_proceeds orderly run fit
    have ordered := progresses.orderly.ordered
    refine ⟨progresses.states, progresses.orderly.once, ?_, ordered.table.prepared, ?_, ?_, ?_, ?_⟩
    · exact fun id member =>
        ⟨progresses.orderly.running id member, progresses.launched id member⟩
    · intro id index pc next after known
      constructor <;> intro failed
      · exact ends_of_error failed
          (Guest.finds_getStatic sound'.closed ordered known index pc next) rfl
      · exact ends_of_error failed
          (Guest.finds_setStatic sound'.closed ordered known index pc next) rfl
    · exact fun id pc pushed after known initializes fit =>
        sound'.methods_of_ensureInitialized known initializes fit
    · exact fun id pc thrown after known fails fit =>
        sound'.methods_of_ensureInitialized_error known fails fit
    · intro id instr cls resolved pc after current uses initializes fit
      exact ⟨fun reentry code next => uses.execute initializes reentry code next,
        sound'.resumes_of_uses current uses initializes fit⟩

/-! ## A class in use -/

/-- An initializer that does nothing. -/
def quiet (id : ClassId) : Method := { nullary #[0xB1] with owner := id, name := "<clinit>" }

theorem initializer?_within (code : Array UInt8) :
    ((within code [quiet ⟨0⟩]).cls ⟨0⟩).initializer? = some ⟨⟨0⟩, 0⟩ := by
  simp [within, cls, ClassTable.get, classOf, Class.initializer?, Class.declaredMethod?, nullary,
    quiet, List.findIdx?_cons]

theorem fit_within_quiet (code : Array UInt8) : (within code [quiet ⟨0⟩]).registry.Fit := by
  refine ⟨Nat.le_of_ble_eq_true rfl, ?_⟩
  rintro ⟨index⟩ method inside found
  cases Nat.lt_one_iff.mp inside
  cases (initializer?_within code).symm.trans found
  change (quiet ⟨0⟩).frameArgSlots = 0
  decide

theorem methods_within (code : Array UInt8) (others : List Method) :
    (within code others).methods = [⟨⟨0⟩, UInt16.ofNat others.length⟩] := by
  rw [methods_eq, (stands_within code others).methods_eq]
  rfl

theorem orderly_within_quiet (code : Array UInt8) : (within code [quiet ⟨0⟩]).Orderly := by
  have only : ∀ id, (within code [quiet ⟨0⟩]).registry.Has id → id = ⟨0⟩ := by
    rintro ⟨index⟩ inside
    cases Nat.lt_one_iff.mp inside
    rfl
  have first : (within code [quiet ⟨0⟩]).registry.Has ⟨0⟩ := Nat.one_pos
  have none : (within code [quiet ⟨0⟩]).initializing = [] := by
    rw [initializing, methods_within]
    rfl
  refine ⟨⟨⟨?_, ?_, ?_, ?_⟩, ?_⟩, ?_, ?_, ?_, ?_⟩
  · intro id known _ begun
    cases only id known
    exact (begun rfl).elim
  · intro id known _
    cases only id known
    rfl
  · intro id known
    cases only id known
    exact Nat.le_of_ble_eq_true rfl
  · intro id index field known held
    cases only id known
    cases held
  · intro key target held
    cases Std.HashMap.getElem?_empty.symm.trans held
  · rw [methods_within]
    intro id member
    cases List.mem_singleton.mp member
    exact ⟨first, Nat.lt_succ_self 1⟩
  · rw [methods_within]
    intro id member initializer
    cases List.mem_singleton.mp member
    cases initializer
  · rw [show (within code [quiet ⟨0⟩]).registry.initializing _ = [] from none]
    exact List.nodup_nil
  · rw [show (within code [quiet ⟨0⟩]).registry.initializing _ = [] from none]
    exact fun id member => absurd member List.not_mem_nil

/-- The constants of a class with one static field of its own. -/
def ownField : ConstantPool := ⟨#[.empty, .resolvedField ⟨⟨0⟩, 0, .int, true⟩]⟩

theorem slot_ownField (index : UInt16) :
    ownField.slot index = .empty ∨ ownField.slot index = .resolvedField ⟨⟨0⟩, 0, .int, true⟩ := by
  rw [ConstantPool.slot]
  rcases index.toNat with _ | _ | index
  · exact .inl rfl
  · exact .inr rfl
  · exact .inl rfl

/-- A machine about to read a static field of its class, after an instruction that does
nothing. -/
def reading : Machine :=
  (within #[0x00, 0xB2, 0x00, 0x01] [quiet ⟨0⟩]).modifyClass ⟨0⟩ fun cls =>
    { cls with pool := ownField }

theorem calm_reading : (within #[0x00, 0xB2, 0x00, 0x01] [quiet ⟨0⟩]).Calm reading := by
  have closed := closed_within #[0x00, 0xB2, 0x00, 0x01] [quiet ⟨0⟩]
  have first : (within #[0x00, 0xB2, 0x00, 0x01] [quiet ⟨0⟩]).registry.Has ⟨0⟩ := Nat.one_pos
  have rests : (within #[0x00, 0xB2, 0x00, 0x01] [quiet ⟨0⟩]).registry.toClassTable.Rests
      reading.registry.toClassTable := by
    apply ClassTable.rests_of_classes (ClassTable.size_modify ..)
    · intro id known
      rw [ClassTable.get_modify _ ⟨0⟩ id _ known]
      split <;> exact ⟨rfl, rfl, rfl, rfl, fun prepared => prepared⟩
    · intro _ id index field known held
      obtain ⟨place⟩ := id
      cases Nat.lt_one_iff.mp known
      rcases slot_ownField index with empty | own
      · cases empty.symm.trans held
      · cases own.symm.trans held
        exact ⟨first, rfl⟩
  have table : reading.registry.toClassTable.Closed := by
    refine closed.registry.table.modify ⟨0⟩ ⟨rfl, rfl, rfl, rfl, rfl⟩ fun _ index => ?_
    change (ownField.slot index).IdsIn _
    rcases slot_ownField index with held | held <;> rw [held]
    · trivial
    · exact first
  have grows : (within #[0x00, 0xB2, 0x00, 0x01] [quiet ⟨0⟩]).registry.GrowsTo
      reading.registry.toClassTable := ClassTable.growsTo_modify ⟨0⟩ ⟨rfl, rfl, rfl, rfl, rfl⟩
  have stays : (within #[0x00, 0xB2, 0x00, 0x01] [quiet ⟨0⟩]).Stays
      ((within #[0x00, 0xB2, 0x00, 0x01] [quiet ⟨0⟩]).modifyTable fun table =>
        table.modify ⟨0⟩ fun cls => { cls with pool := ownField }) :=
    closed.stays_modifyTable table grows
  exact ⟨stays, Registry.rests_of_table grows rests⟩

theorem sound_reading : reading.Sound := by
  have follows : (within #[0x00, 0xB2, 0x00, 0x01] [quiet ⟨0⟩]).Follows True reading :=
    (sound_within _ _).follows_of_calm calm_reading
  exact follows.sound

theorem orderly_reading : reading.Orderly := by
  have launches := calm_reading.launches (closed_within _ _) (stands_within _ _)
    (orderly_within_quiet _)
  exact launches.orderly

/-- The machine after the first instruction. -/
def advanced : Machine := reading.countStep.modifyExec fun exec => { exec with pc := 1 }

set_option maxRecDepth 4000 in
theorem runStep_reading (reentry : Reentry) : Host.runStep reentry reading = .ok none advanced := by
  rfl

theorem fit_reading : reading.registry.Fit :=
  (fit_within_quiet _).grow (closed_within _ _).registry.table calm_reading.closed.registry.table
    calm_reading.grows (ClassTable.size_modify ..)

set_option maxRecDepth 4000 in
theorem proceeds_reading : Proceeds ⟨0, 0⟩ reading advanced := by
  have runs := runStep_reading
  have asks : Guest.demand (reading.modifyHeap Heap.clearPending) = .ok 0 reading := rfl
  have names : Guest.named (reading.modifyHeap Heap.clearPending) = .ok none reading := rfl
  refine ⟨.step ?_ ((runs _).trans (runs _).symm) (.inl ⟨none, runs _⟩), ?_, ?_, ?_⟩
  · exact fun _ => Ends.of_ok asks (stands_within _ _).offers
  · exact fun _ _ => Ends.of_ok names nofun
  · intro id arguments complete idle
    cases idle
  · -- a thread would have taken the next id
    intro id arguments _ leaves
    obtain ⟨_, ran⟩ | ⟨_, ran⟩ := leaves
    · cases ran
    · cases ran

/-- The machine in which the class of the field has begun. -/
def begun : Machine := advanced.modifyClass ⟨0⟩ fun cls =>
  { cls with statics := some (Fields.ofSize 0), initState := .initializing }

theorem superChain_advanced : advanced.registry.superChain ⟨0⟩ = [⟨0⟩] := by
  have last : advanced.registry.superclass? ⟨0⟩ = none := rfl
  rw [ClassTable.superChain, last]

theorem ensureInitialized_advanced :
    Guest.ensureInitialized ⟨0⟩ 1 advanced = .ok true (begun.launch ⟨⟨0⟩, 0⟩ 1) := by
  have fresh : (advanced.cls ⟨0⟩).initState = .uninitialized := rfl
  have found : (begun.cls ⟨0⟩).initializer? = some ⟨⟨0⟩, 0⟩ := by decide +kernel
  rw [Guest.ensureInitialized_of_fresh fresh, superChain_advanced]
  exact Guest.initializeChain_of_pushed fresh rfl found rfl

theorem initialization_one_way_reading :
    Host.runStep (Bounds.reentry ⟨0, 0⟩) reading = .ok none advanced ∧
      Guest.execute (Bounds.reentry ⟨0, 0⟩) ⟨⟨0⟩, 1⟩ #[0x00, 0xB2, 0x00, 0x01] 1 4
        (.getStatic 1) advanced = .ok .next (begun.launch ⟨⟨0⟩, 0⟩ 1) ∧
      (begun.launch ⟨⟨0⟩, 0⟩ 1).methods = [⟨⟨0⟩, 0⟩, ⟨⟨0⟩, 1⟩] ∧ advanced.Resumes ⟨0, 0⟩ 1 (begun.launch ⟨⟨0⟩, 0⟩ 1) := by
  obtain ⟨-, -, -, -, -, pushes, -, uses⟩ := (initialization_one_way ⟨0, 0⟩).2 reading advanced
    sound_reading orderly_reading (.single proceeds_reading) fit_reading
  have known : advanced.registry.Has ⟨0⟩ := Nat.one_pos
  have closed : advanced.Closed := (sound_reading.follows proceeds_reading.evolves).sound.closed
  have advances := (ends_of_ok ensureInitialized_advanced
    (Guest.raises_ensureInitialized closed known 1)).1.advances
  have fit : begun.registry.Fit := fit_reading.grow calm_reading.closed.registry.table
    advances.closed.registry.table advances.grows (ClassTable.size_modify ..)
  have found : Guest.resolveField ⟨0⟩ 1 advanced = .ok ⟨⟨0⟩, 0, .int, true⟩ advanced := rfl
  obtain ⟨executes, -, resumes⟩ := uses ⟨⟨0⟩, 1⟩ _ _ _ 1 _ rfl
    (.getStatic found rfl) ensureInitialized_advanced fit
  have methods := pushes ⟨0⟩ 1 true _ known ensureInitialized_advanced fit
  have pending : advanced.pendingInitializers ⟨0⟩ = [⟨⟨0⟩, 0⟩] := by
    rw [pendingInitializers, superChain_advanced]
    decide +kernel
  have current : advanced.methods = [⟨⟨0⟩, 1⟩] := by
    have stands : advanced.exec.Stands _ _ :=
      (stands_within #[0x00, 0xB2, 0x00, 0x01] [quiet ⟨0⟩]).congr rfl rfl rfl
    rw [methods_eq, stands.methods_eq]
    rfl
  rw [pending, current] at methods
  exact ⟨runStep_reading _, executes _ _ _, methods, resumes fun other member => nomatch member⟩

/-! ## What initialization does not survive -/

/-- Code that leaves its frame for the first method of its class: it discards what its frame
has saved and puts another context in the place. -/
def forging : Array UInt8 := #[0x58, 0x58, 0x03, 0x03, 0x03, 0x06, 0xB1]

/-- A machine with a class and a subclass of it, and room for one frame. -/
def shallow : Machine :=
  { within #[] [] with
    registry := {
      classes := #[classOf [quiet ⟨0⟩],
        { classOf [quiet ⟨1⟩] with id := ⟨1⟩, superclass := some ⟨0⟩ }] }
    exec := Execution.idle Execution.mainId 6 }

theorem superChain_shallow : shallow.registry.superChain ⟨1⟩ = [⟨1⟩, ⟨0⟩] := by
  have above : shallow.registry.superclass? ⟨1⟩ = some ⟨0⟩ := rfl
  have last : shallow.registry.superclass? ⟨0⟩ = none := rfl
  rw [ClassTable.superChain, above]
  dsimp only
  rw [ClassTable.superChain, last]

/-- The machine in the frame of the subclass's initializer. -/
def filled : Machine :=
  (shallow.modifyClass ⟨1⟩ fun cls =>
    { cls with statics := some (Fields.ofSize 0), initState := .initializing }).launch ⟨⟨1⟩, 0⟩ 0

/-- The machine that finds no room for the frame of the superclass's initializer. -/
def exhausted : Machine := filled.modifyClass ⟨0⟩ fun cls =>
  { cls with statics := some (Fields.ofSize 0), initState := .initializing }

theorem ends_filled : Ends (Guest.initializeChain [⟨0⟩] 0) filled (fun _ _ => False)
    fun _ after => after.exec = filled.exec := by
  have fresh : (filled.cls ⟨0⟩).initState = .uninitialized := rfl
  have prepares : Guest.prepareStatics ⟨0⟩ filled =
      .ok ⟨⟩ (filled.modifyClass ⟨0⟩ fun cls => { cls with statics := some (Fields.ofSize 0) }) := rfl
  have begins : ((filled.modifyClass ⟨0⟩ fun cls =>
      { cls with statics := some (Fields.ofSize 0) }).modifyClass ⟨0⟩ fun cls =>
        { cls with initState := .initializing }) = exhausted := rfl
  have found : (exhausted.cls ⟨0⟩).initializer? = some ⟨⟨0⟩, 0⟩ := by decide +kernel
  have full : Guest.pushFrame ⟨⟨0⟩, 0⟩ 0 0 exhausted =
      Guest.raise .stackOverflowError none exhausted := by
    rfl
  rw [Guest.initializeChain, ends_bind, ends_get, fresh]
  dsimp only
  rw [ends_bind]
  refine Ends.of_ok prepares ?_
  rw [ends_bind, Guest.setInitState, ends_modify, begins, ends_bind, Guest.pushInitializer,
    ends_bind, ends_get, found]
  dsimp only
  rw [ends_bind, Guest.ends_onThrow, ends_congr full]
  exact (Guest.ends_raise _ _ _).mono (fun _ _ never => never.elim) fun _ _ same => same

theorem ensureInitialized_shallow : Guest.ensureInitialized ⟨1⟩ 0 shallow =
    (Guest.initializeChain [⟨0⟩] 0 >>= fun _ => pure true) filled := by
  have fresh : (shallow.cls ⟨1⟩).initState = .uninitialized := rfl
  have found : ((shallow.modifyClass ⟨1⟩ fun cls =>
      { cls with statics := some (Fields.ofSize 0), initState := .initializing }).cls
        ⟨1⟩).initializer? = some ⟨⟨1⟩, 0⟩ := by decide +kernel
  rw [Guest.ensureInitialized_of_fresh fresh, superChain_shallow]
  exact Guest.initializeChain_of_pushed fresh rfl found rfl

set_option maxRecDepth 8000 in
/-- Code that reaches below its frame may return into an initializer that nothing has
pushed; an array class has no static fields; and where the stack has no room for all
frames, the initializer of a class has one without that of its superclass. -/
theorem initialization_forged :
    (∃ before after : Machine, before.Sound ∧ before.Orderly ∧ before.registry.Fit ∧
        (before.cls ⟨0⟩).initState = .uninitialized ∧
        Host.runSteps (Bounds.reentry {}) 8 before = .ok .yielded after ∧
        (after.cls ⟨0⟩).initState = .initialized ∧ (after.cls ⟨0⟩).statics = none) ∧
      (∃ table, (Linking.registerArray "[I" .int none ⟨0⟩ []).run {} = .ok ⟨0⟩ table ∧
        (table.get ⟨0⟩).initState = .initialized ∧ (table.get ⟨0⟩).statics = none) ∧
      ∃ (before after : Machine) (thrown : Throw),
        before.pendingInitializers ⟨1⟩ = [⟨⟨1⟩, 0⟩, ⟨⟨0⟩, 0⟩] ∧
        Guest.ensureInitialized ⟨1⟩ 0 before = .error thrown after ∧
        after.exec.method = some ⟨⟨1⟩, 0⟩ ∧
        (FrameContext.read after.exec.stack after.exec.startSp).caller = none := by
  refine ⟨?_, ?_, ?_⟩
  · refine ⟨within forging [quiet ⟨0⟩], _, sound_within _ _, orderly_within_quiet _,
      fit_within_quiet _, rfl, rfl, ?_, ?_⟩
    · decide +kernel
    · exact Option.isNone_iff_eq_none.mp (by decide +kernel)
  · exact ⟨_, rfl, rfl, rfl⟩
  · have pending : shallow.pendingInitializers ⟨1⟩ = [⟨⟨1⟩, 0⟩, ⟨⟨0⟩, 0⟩] := by
      rw [pendingInitializers, superChain_shallow]
      decide +kernel
    have fails : Ends (Guest.initializeChain [⟨0⟩] 0 >>= fun _ => pure true) filled
        (fun _ _ => False) fun _ after => after.exec = filled.exec :=
      ends_bind.mpr (ends_filled.mono (fun _ _ never => never.elim) fun _ _ same => same)
    cases ran : (Guest.initializeChain [⟨0⟩] 0 >>= fun _ => pure true) filled with
    | ok pushed after => exact (ends_of_ok ran fails).elim
    | error thrown after =>
        have same := ends_of_error ran fails
        refine ⟨shallow, after, thrown, pending, ensureInitialized_shallow.trans ran, ?_, ?_⟩ <;>
          rw [same]
        · rfl
        · decide +kernel

end Machine

end Jvm
