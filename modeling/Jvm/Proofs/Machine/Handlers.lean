import Jvm.Proofs.Machine.Resolution
import Jvm.Proofs.Machine.Tiling
import Jvm.Proofs.Registry.Naming

/-!
# Handlers

The search for a handler may link classes, resolve their constants and, frame by
frame, give up locks and fail initializers. None of this changes which handler an
exception finds: a class constant goes on naming the class that it names, and a
class linked on the way is no class of the exception. So the handler of a frame is
known when the exception is thrown.
-/

namespace Jvm

/-- An object apart from who holds its monitor. -/
def Object.unlocked (object : Object) : Object := { object with monitor := Monitor.free }

@[simp]
theorem Object.unlocked_cls (object : Object) : object.unlocked.cls = object.cls := rfl

@[simp]
theorem Object.unlocked_fields? (object : Object) : object.unlocked.fields? = object.fields? := rfl

/-- The exception table of a method. -/
def Method.handlers (method : Method) : List Handler := method.code.elim [] (·.handlers)

namespace ClassTable

theorem searched_finishInitialization (table : ClassTable) (id : ClassId) :
    table.Searched (table.finishInitialization id false) := by
  apply finishInitialization_induct (motive := table.Searched) (.refl table)
  intro start other searched
  exact searched.trans (.modify start other (fun _ => ⟨rfl, rfl, rfl, rfl, rfl, rfl, rfl⟩)
    (fun _ => rfl) fun _ _ => rfl)

end ClassTable

namespace Machine

/-- Whether a machine has come from another one by a search for a handler: linked
classes are the types that they were and their constants name what they named, and
objects have changed in nothing but their monitors. -/
structure Unwinds (before after : Machine) : Prop where
  closed : after.Closed
  classes : before.registry.Searched after.registry.toClassTable
  objects : ∀ ref, (after.heap.get? ref).map Object.unlocked =
    (before.heap.get? ref).map Object.unlocked
  known : after.known = before.known

namespace Unwinds

variable {first second third : Machine}

theorem refl {machine : Machine} (closed : machine.Closed) : machine.Unwinds machine :=
  ⟨closed, .refl _, fun _ => rfl, rfl⟩

theorem trans (left : first.Unwinds second) (right : second.Unwinds third) :
    first.Unwinds third where
  closed := right.closed
  classes := left.classes.trans right.classes
  objects ref := (right.objects ref).trans (left.objects ref)
  known := right.known.trans left.known

theorem modifyTable {machine : Machine} {change : ClassTable → ClassTable}
    (closed : (machine.modifyTable change).Closed)
    (classes : machine.registry.Searched (change machine.registry.toClassTable)) :
    machine.Unwinds (machine.modifyTable change) :=
  ⟨closed, classes, fun _ => rfl, rfl⟩

theorem modifyExec {machine : Machine} (closed : machine.Closed)
    (change : Execution → Execution) : machine.Unwinds (machine.modifyExec change) :=
  ⟨⟨closed.registry, closed.known, closed.heap⟩, .refl _, fun _ => rfl, rfl⟩

end Unwinds

/-! ### Leaving frames -/

theorem cls_dropFrame (machine : Machine) (resume : FrameContext → UInt32) (id : ClassId) :
    (machine.dropFrame resume).cls id = machine.cls id := rfl

section

variable {machine : Machine} (closed : machine.Closed)

include closed

theorem unwinds_exitLock (lock : Lock) : machine.Unwinds (machine.exitLock lock).2 := by
  have calm := closed.calm_exitLock lock
  rw [exitLock] at calm ⊢
  split
  · next monitor _ =>
      cases lock with
      | object ref =>
          refine ⟨closed.calm_setMonitor monitor (.object ref) |>.closed, .refl _, ?_, rfl⟩
          intro other
          have changed := machine.heap.get?_modify ref other fun object => { object with monitor }
          simp only [setMonitor, modifyHeap, changed]
          split
          · exact Option.map_map ..
          · rfl
      | cls id =>
          exact ⟨(closed.calm_setMonitor monitor (.cls id)).closed,
            .modify _ id (fun _ => ⟨rfl, rfl, rfl, rfl, rfl, rfl, rfl⟩) (fun _ => rfl)
              (fun _ failed => failed), fun _ => rfl, rfl⟩
  · exact .refl closed

theorem unwinds_leaveInitializer (id : MethodId) :
    machine.Unwinds (machine.leaveInitializer id false) := by
  have stays := closed.stays_leaveInitializer id false
  rw [leaveInitializer] at stays ⊢
  split
  · next initializer =>
      rw [if_pos initializer] at stays
      exact .modifyTable stays.closed (ClassTable.searched_finishInitialization _ id.owner)
  · exact .refl closed

/-- A frame is left on the way to a handler; the class of an initializer has failed then. -/
theorem unwinds_abandonFrame (id : MethodId) : machine.Unwinds (machine.abandonFrame id) := by
  rw [abandonFrame]
  split
  · next lock _ =>
      have released := unwinds_exitLock closed lock
      have left := released.trans (unwinds_leaveInitializer released.closed id)
      exact left.trans (.modifyExec left.closed _)
  · have left := unwinds_leaveInitializer closed id
    exact left.trans (.modifyExec left.closed _)

omit closed in
theorem initState_leaveInitializer {id : MethodId} (known : machine.registry.Has id.owner)
    (initializer : (machine.method id).isInitializer = true) :
    ((machine.leaveInitializer id false).cls id.owner).initState = .failed := by
  rw [leaveInitializer, if_pos initializer]
  have state := @ClassTable.get_finishInitialization _ id.owner _ false known
  rw [if_pos (ClassTable.mem_waiting_self ..)] at state
  exact congrArg Class.initState state

theorem initState_abandonFrame {id : MethodId} (known : machine.registry.Has id.owner)
    (initializer : (machine.method id).isInitializer = true) :
    ((machine.abandonFrame id).cls id.owner).initState = .failed := by
  rw [abandonFrame]
  split
  · next lock _ =>
      have released := unwinds_exitLock closed lock
      rw [cls_dropFrame]
      apply initState_leaveInitializer (released.classes.has known)
      rw [method_exitLock]
      exact initializer
  · rw [cls_dropFrame]
    exact initState_leaveInitializer known initializer

end

/-! ### What a search leaves to be reported -/

namespace Unwinds

variable {before after : Machine} (unwinds : before.Unwinds after)

include unwinds

theorem method_eq {id : MethodId} (known : before.registry.Has id.owner) :
    after.method id = before.method id :=
  unwinds.classes.method_eq known

theorem class?_eq (ref : Ref) : after.heap.class? ref = before.heap.class? ref := by
  have same := congrArg (Option.map Object.cls) (unwinds.objects ref)
  rwa [Option.map_map, Option.map_map] at same

theorem fields?_eq (ref : Ref) : after.heap.fields? ref = before.heap.fields? ref := by
  have same := congrArg (·.bind Object.fields?) (unwinds.objects ref)
  simp only [Option.bind_map] at same
  exact same

theorem array?_eq (ref : Ref) : after.heap.array? ref = before.heap.array? ref := by
  have same := congrArg (·.bind Object.array?) (unwinds.objects ref)
  simp only [Option.bind_map] at same
  exact same

theorem stringText?_eq (ref : Ref) : after.stringText? ref = before.stringText? ref := by
  have same := unwinds.objects ref
  simp only [stringText?, stringUnits?, unwinds.known, unwinds.array?_eq]
  cases here : before.heap.get? ref with
  | none =>
      rw [here, Option.map_none, Option.map_eq_none_iff] at same
      rw [same]
  | some object =>
      rw [here] at same
      obtain ⟨other, there, unlocked⟩ := Option.map_eq_some_iff.mp same
      have cls : other.cls = object.cls := by simpa using congrArg Object.cls unlocked
      have fields : other.fields? = object.fields? := by
        simpa using congrArg Object.fields? unlocked
      simp only [there, bind, Option.bind_some, cls, fields]

theorem throwableMessage?_eq (ref : Ref) :
    after.throwableMessage? ref = before.throwableMessage? ref := by
  simp only [throwableMessage?, unwinds.fields?_eq, unwinds.known, unwinds.stringText?_eq]

theorem displayName_eq {id : ClassId} (known : before.registry.Has id) :
    after.displayName id = before.displayName id := by
  simp only [displayName, ClassTable.displayName, Class.displayName,
    (unwinds.classes.types id known).name]

theorem describeFrame_eq {id : MethodId} (known : before.registry.Has id.owner) (pc : UInt32) :
    after.registry.describeFrame id pc = before.registry.describeFrame id pc := by
  have types := unwinds.classes.types id.owner known
  simp only [ClassTable.describeFrame, unwinds.classes.method_eq known, Class.displayName,
    types.name, types.sourceFile]

/-- The report of an exception does not depend on the search. -/
theorem uncaught_eq {thrown : ClassId} (known : before.registry.Has thrown)
    {trace : List (MethodId × UInt32)} (places : ∀ place ∈ trace, before.registry.Has place.1.owner)
    (ref : Ref) : after.uncaught ref thrown trace = before.uncaught ref thrown trace := by
  simp only [uncaught, unwinds.displayName_eq known, unwinds.throwableMessage?_eq]
  refine congrArg _ (List.map_congr_left ?_)
  intro place member
  exact unwinds.describeFrame_eq (places place member) place.2

end Unwinds

/-! ## The handler of a frame -/

/-- Whether a handler of a class takes the objects of another one: without a catch type,
or if its catch type loads as a class whose variables may hold them. -/
def takes (machine : Machine) (owner thrown : ClassId) (handler : Handler) : Bool :=
  handler.catchType == 0 ||
    match Guest.linkClass owner handler.catchType machine with
    | .ok (.ok caught) after => after.registry.isAssignable thrown caught
    | _ => false

/-- Whether a handler of a frame catches the objects of a class that are thrown at the
frame's pc. -/
def catches (machine : Machine) (thrown : ClassId) (frame : Frame) (handler : Handler) : Bool :=
  handler.covers frame.pc && machine.takes frame.method.owner thrown handler

/-- The first handler of a frame that catches the objects of a class. -/
def handlerIn? (machine : Machine) (thrown : ClassId) (frame : Frame) : Option Handler :=
  (machine.method frame.method).handlers.find? (machine.catches thrown frame)

/-- Whether the objects of a class can be exceptions: the class is linked and is no array
class, and so is the root of all classes. -/
structure Throwable (machine : Machine) (thrown : ClassId) : Prop where
  closed : machine.Closed
  linked : machine.registry.Has thrown
  object : (machine.cls thrown).array = none
  root : machine.registry.find? ClassTable.objectName ≠ none

namespace Throwable

variable {before machine : Machine} {thrown owner : ClassId}

theorem of_unwinds (throwable : before.Throwable thrown) (unwinds : before.Unwinds machine) :
    machine.Throwable thrown where
  closed := unwinds.closed
  linked := unwinds.classes.has throwable.linked
  object := (unwinds.classes.types thrown throwable.linked).array.trans throwable.object
  root unknown := throwable.root (unwinds.classes.find?_eq_none unknown)

variable (throwable : before.Throwable thrown)

include throwable

/-- Whether a class takes an exception is known when the exception is thrown: if the class
was linked then; a class linked since takes none. -/
theorem isAssignable_iff (unwinds : before.Unwinds machine) {caught : ClassId}
    (linked : machine.registry.Has caught) :
    machine.registry.isAssignable thrown caught = true ↔
      before.registry.Has caught ∧ before.registry.isAssignable thrown caught = true := by
  have closed := throwable.closed.registry.table
  by_cases old : before.registry.Has caught
  · rw [unwinds.classes.isAssignable_eq closed throwable.linked throwable.object old]
    exact ⟨fun assignable => ⟨old, assignable⟩, And.right⟩
  · have notRoot : (machine.registry.get caught).name ≠ ClassTable.objectName := fun root =>
      throwable.root (root ▸ unwinds.classes.fresh caught linked old)
    have refused := unwinds.classes.not_isAssignable_of_new closed throwable.linked
      throwable.object old notRoot
    rw [refused]
    constructor
    · exact nofun
    · exact fun both => (old both.1).elim

end Throwable

/-! ### Catch types -/

/-- How the class of a constant is found during the search for a handler: whether it takes
an exception is a matter of what the constant named when the exception was thrown. -/
structure Links (before machine : Machine) (thrown owner : ClassId) (index : UInt16)
    (linked : Except LoadError ClassId) (after : Machine) : Prop where
  unwinds : before.Unwinds after
  exec : after.exec = machine.exec
  assignable :
    (∃ caught, linked = .ok caught ∧ after.registry.isAssignable thrown caught = true) ↔
      ∃ caught, before.registry.named? owner index = some caught ∧
        before.registry.isAssignable thrown caught = true

namespace Links

variable {before machine after : Machine} {thrown owner : ClassId} {index : UInt16}

theorem of_unnamed (unwinds : before.Unwinds after) (exec : after.exec = machine.exec)
    (unnamed : before.registry.named? owner index = none) (error : LoadError) :
    Links before machine thrown owner index (.error error) after := by
  refine ⟨unwinds, exec, ?_⟩
  rw [unnamed]
  constructor <;> rintro ⟨caught, ⟨⟩, -⟩

theorem of_named (throwable : before.Throwable thrown) (unwinds : before.Unwinds after)
    (exec : after.exec = machine.exec) (known : before.registry.Has owner) {caught : ClassId}
    (linked : after.registry.Has caught)
    (named : before.registry.named? owner index = some caught ∨
      before.registry.named? owner index = none ∧ ¬before.registry.Has caught) :
    Links before machine thrown owner index (.ok caught) after := by
  refine ⟨unwinds, exec, ?_⟩
  have assignable := throwable.isAssignable_iff unwinds linked
  rcases named with named | ⟨unnamed, unlinked⟩
  · have old := throwable.closed.registry.table.has_of_named? known named
    rw [named]
    constructor
    · rintro ⟨other, ⟨⟩, holds⟩
      exact ⟨_, rfl, (assignable.mp holds).2⟩
    · rintro ⟨other, ⟨⟩, holds⟩
      exact ⟨_, rfl, assignable.mpr ⟨old, holds⟩⟩
  · rw [unnamed]
    constructor
    · rintro ⟨other, ⟨⟩, holds⟩
      exact (unlinked (assignable.mp holds).1).elim
    · rintro ⟨other, ⟨⟩, -⟩

end Links

theorem links_loadRaw {machine : Machine} (closed : machine.Closed) (name : String) :
    Ends (Guest.loadRaw name) machine
      (fun linked after => machine.Unwinds after ∧ after.exec = machine.exec ∧
        (∀ id, machine.registry.Has id →
          (after.registry.get id).pool = (machine.registry.get id).pool) ∧
        (∀ id, linked = .ok id → after.registry.find? name = some id) ∧
        ∀ error, linked = .error error → machine.registry.find? name = none)
      fun _ _ => False := by
  have links := Registry.links_load closed.registry name
  have prefixes := machine.registry.prefixes_load name
  refine Ends.of_ok rfl ⟨⟨(closed.stays_registry links.closed links.grows).closed,
    .of_prefixes prefixes.1, fun _ => rfl, rfl⟩, rfl, ?_, prefixes.2, ?_⟩
  · exact fun id known => congrArg Class.pool (prefixes.1.classes id known)
  · intro error failed
    cases old : machine.registry.find? name with
    | none => rfl
    | some id => cases (Registry.load_of_find? old).symm.trans failed

theorem links_linkClass {before machine : Machine} {thrown owner : ClassId}
    (throwable : before.Throwable thrown) (unwinds : before.Unwinds machine)
    (known : before.registry.Has owner) (index : UInt16) :
    Ends (Guest.linkClass owner index) machine (Links before machine thrown owner index)
      fun _ _ => False := by
  have here := unwinds.classes.has known
  simp only [Guest.linkClass, ends_bind, ends_get]
  split
  next error failed =>
      have unnamed := unwinds.classes.named?_eq_none known (ConstantPool.slot_of_get_error failed)
        (by rintro _ ⟨⟩) (by rintro _ ⟨⟩)
      exact ends_pure.mpr (.of_unnamed unwinds rfl unnamed error)
  next resolved found =>
      have linked : machine.registry.Has resolved := Guest.idsIn_of_get unwinds.closed found
      have slot := ((ConstantPool.get_eq_ok_iff _ _ _).mp found).1
      exact ends_pure.mpr (.of_named throwable unwinds rfl known linked
        (unwinds.classes.named?_of_resolved known slot))
  next nameIndex found =>
      have slot := ((ConstantPool.get_eq_ok_iff _ _ _).mp found).1
      split
      next error failed =>
          have unnamed := unwinds.classes.named?_of_unreadable known slot failed
          exact ends_pure.mpr (.of_unnamed unwinds rfl unnamed error)
      next name read =>
          have named := unwinds.classes.named?_of_symbolic known slot read
          simp only [ends_bind]
          apply (links_loadRaw unwinds.closed name).mono
          · rintro linked after ⟨loads, exec, pools, found, unlinked⟩
            have reached := unwinds.trans loads
            cases linked with
            | error error =>
                have unknown := unwinds.classes.find?_eq_none (unlinked error rfl)
                exact ends_pure.mpr (.of_unnamed reached exec (named.trans unknown) error)
            | ok resolved =>
                have holds := found resolved rfl
                have linked := loads.closed.registry.table.names name resolved holds
                have same := pools owner here
                have remembers := ClassTable.Searched.remember after.registry.toClassTable
                  (same ▸ slot) (same ▸ read) holds
                have ids : (Constant.resolvedClass resolved).IdsIn _ := linked
                have closed :=
                  (Guest.calm_remember loads.closed owner index ids (by rintro _ ⟨⟩)).closed
                have remembered := reached.trans ⟨closed, remembers, fun _ => rfl, rfl⟩
                simp only [ends_bind, Guest.remember, ends_modify, ends_pure]
                refine .of_named throwable remembered exec known
                  ((ClassTable.has_modify ..).mpr linked) ?_
                rw [named]
                exact reached.classes.find?_cases holds
          · exact fun _ _ never => never
  next other differs differs' found =>
      have slot := ((ConstantPool.get_eq_ok_iff _ _ _).mp found).1
      have unnamed := unwinds.classes.named?_eq_none known slot differs differs'
      exact ends_pure.mpr (.of_unnamed unwinds rfl unnamed _)

/-! ### The first handler -/

section

variable {before machine : Machine} {thrown owner : ClassId} (throwable : before.Throwable thrown)
  (unwinds : before.Unwinds machine)

include throwable unwinds

/-- Which exceptions a handler takes does not change during the search. -/
theorem takes_eq (known : before.registry.Has owner) (handler : Handler) :
    machine.takes owner thrown handler = before.takes owner thrown handler := by
  have named : ∀ start : Machine, before.Unwinds start →
      (start.takes owner thrown handler = true ↔ handler.catchType = 0 ∨
        ∃ caught, before.registry.named? owner handler.catchType = some caught ∧
          before.registry.isAssignable thrown caught = true) := by
    intro start reached
    obtain ⟨linked, after, ran, links⟩ :=
      (links_linkClass throwable reached known handler.catchType).exists_ok fun _ _ never => never
    rw [takes, ran, Bool.or_eq_true, beq_iff_eq, ← links.assignable]
    refine or_congr_right ?_
    cases linked with
    | error error =>
        constructor
        · exact nofun
        · rintro ⟨caught, ⟨⟩, -⟩
    | ok caught =>
        constructor
        · exact fun holds => ⟨caught, rfl, holds⟩
        · rintro ⟨other, ⟨⟩, holds⟩
          exact holds
  rw [Bool.eq_iff_iff, named machine unwinds, named before (.refl throwable.closed)]

theorem handlerIn?_eq {frame : Frame} (known : before.registry.Has frame.method.owner) :
    machine.handlerIn? thrown frame = before.handlerIn? thrown frame := by
  have catches : machine.catches thrown frame = before.catches thrown frame := by
    funext handler
    rw [Machine.catches, Machine.catches, takes_eq throwable unwinds known]
  rw [handlerIn?, handlerIn?, unwinds.method_eq known, catches]

/-- A search finds the first handler that covers the pc and takes the exception. -/
theorem ends_findHandlerIn (known : before.registry.Has owner) (pc : UInt32)
    (handlers : List Handler) :
    Ends (Guest.findHandlerIn owner pc thrown handlers) machine
      (fun found after => before.Unwinds after ∧ after.exec = machine.exec ∧
        found = (handlers.find? fun handler =>
          handler.covers pc && before.takes owner thrown handler).map (·.handlerPc.toUInt32))
      fun _ _ => False := by
  induction handlers generalizing machine with
  | nil => exact ends_pure.mpr ⟨unwinds, rfl, rfl⟩
  | cons handler rest ih =>
      rw [Guest.findHandlerIn, List.find?_cons]
      by_cases covers : handler.covers pc = true
      · simp only [covers, Bool.not_true, Bool.true_and, Bool.false_eq_true, if_false]
        by_cases every : handler.catchType = 0
        · have takes : before.takes owner thrown handler = true := by
            rw [Machine.takes, every]
            rfl
          rw [if_pos every, takes]
          exact ends_pure.mpr ⟨unwinds, rfl, rfl⟩
        · rw [if_neg every, ends_bind]
          have same := takes_eq throwable unwinds known handler
          obtain ⟨linked, after, ran, links⟩ :=
            (links_linkClass throwable unwinds known handler.catchType).exists_ok
              fun _ _ never => never
          rw [takes, ran, beq_eq_false_iff_ne.mpr every, Bool.false_or] at same
          refine Ends.of_ok ran ?_
          have further := ih links.unwinds
          rw [links.exec] at further
          cases linked with
          | error error =>
              rw [← same]
              exact further
          | ok caught =>
              dsimp only at same ⊢
              rw [ends_bind, ends_get, ← same]
              cases after.registry.isAssignable thrown caught with
              | true => exact ends_pure.mpr ⟨links.unwinds, links.exec, rfl⟩
              | false => exact further
      · rw [Bool.not_eq_true] at covers
        simp only [covers, Bool.not_false, Bool.false_and, if_true]
        exact ih unwinds

/-- The search in a frame finds its handler. -/
theorem ends_findHandler {frame : Frame} (known : before.registry.Has frame.method.owner) :
    Ends (Guest.findHandler frame.method frame.pc thrown) machine
      (fun found after => before.Unwinds after ∧ after.exec = machine.exec ∧
        found = (before.handlerIn? thrown frame).map (·.handlerPc.toUInt32))
      fun _ _ => False := by
  rw [Guest.findHandler, ends_bind, ends_get, handlerIn?, Method.handlers,
    ← unwinds.method_eq known]
  cases (machine.method frame.method).code with
  | none => exact ends_pure.mpr ⟨unwinds, rfl, rfl⟩
  | some code => exact ends_findHandlerIn throwable unwinds known frame.pc code.handlers

end

end Machine

end Jvm
