import Jvm.Proofs.Debugging.Shadowing
import Jvm.Proofs.Heap.Retention
import Jvm.Proofs.Locking.Guarding

/-!
# What a wait for a lock leaves alone

An instruction that has to wait may have resolved constants, linked classes and made some of them
ready for use before it asked for its lock. Whoever ran is where it was with the operands that it
had, and the locks of all classes are held as they were. So are those of all objects, for the heap
is what it was, unless a class has begun its initialization: its static strings may be new ones, and
a collection may have made way for them.

A class that is made ready gets new static fields. Those that it has before its initialization
begins, if an attempt without success has left any, are not read by any program: they are made anew
before that. So they do not keep an object alive in such a step. What is named otherwise does.
-/

namespace Jvm

theorem ClassTable.get_eq_getD (table : ClassTable) (id : ClassId) :
    table.get id = (table.class? id).getD default :=
  Array.getD_eq_getD_getElem? ..

/-- The class of an id after a change to one class. -/
theorem ClassTable.class?_modify (table : ClassTable) (id other : ClassId)
    (change : Class → Class) : (table.modify id change).class? other =
      if id = other then (table.class? other).map change else table.class? other := by
  rw [class?, modify, Array.getElem?_modify]
  by_cases same : id = other
  · subst same
    rw [if_pos rfl, if_pos rfl, class?]
  · have apart : ¬id.index = other.index := fun equal => same (congrArg ClassId.mk equal)
    rw [if_neg apart, if_neg same, class?]

theorem Machine.cls_modifyClass (machine : Machine) (id : ClassId) (change : Class → Class) :
    (machine.modifyClass id change).cls id =
      ((machine.registry.class? id).map change).getD default :=
  (ClassTable.get_eq_getD ..).trans
    (congrArg (Option.getD · default) ((ClassTable.class?_modify ..).trans (if_pos rfl)))

/-! ## Classes and objects that abide -/

/-- Whether a class keeps its lock, its code and what it names, though static fields may come with
the start of its initialization. -/
structure Class.Abides (before after : Class) : Prop where
  monitor : after.monitor = before.monitor
  methods : after.methods = before.methods
  refSlots : after.refSlots = before.refSlots
  staticRefSlots : after.staticRefSlots = before.staticRefSlots
  mirror : after.mirror = before.mirror
  begun : before.initState ≠ .uninitialized →
    after.initState ≠ .uninitialized ∧ after.statics = before.statics

/-- Whether an object is what it was, though it may be kept for ever from now on. -/
structure Object.Abides (before after : Object) : Prop where
  same : after = { before with sticky := after.sticky }
  sticky : before.sticky = true → after.sticky = true

theorem Class.Abides.refl (cls : Class) : cls.Abides cls :=
  ⟨rfl, rfl, rfl, rfl, rfl, fun begun => ⟨begun, rfl⟩⟩

theorem Class.Abides.trans {first second third : Class} (left : first.Abides second)
    (right : second.Abides third) : first.Abides third where
  monitor := right.monitor.trans left.monitor
  methods := right.methods.trans left.methods
  refSlots := right.refSlots.trans left.refSlots
  staticRefSlots := right.staticRefSlots.trans left.staticRefSlots
  mirror := right.mirror.trans left.mirror
  begun begun := by
    obtain ⟨started, statics⟩ := left.begun begun
    obtain ⟨goesOn, kept⟩ := right.begun started
    exact ⟨goesOn, kept.trans statics⟩

/-- What a class names is named still. -/
theorem Class.Abides.names {before after : Class} (abides : before.Abides after)
    (begun : before.initState ≠ .uninitialized) {ref : Ref} (held : before.Names ref) :
    after.Names ref := by
  cases held with
  | static prepared traced held =>
      exact .static ((abides.begun begun).2.trans prepared) (abides.staticRefSlots ▸ traced) held
  | mirror held => exact .mirror (abides.mirror.trans held)

namespace Object.Abides

variable {first second third : Object}

theorem refl (object : Object) : object.Abides object := ⟨rfl, id⟩

theorem trans (left : first.Abides second) (right : second.Abides third) :
    first.Abides third where
  same := by
    rw [right.same, left.same]
  sticky kept := right.sticky (left.sticky kept)

theorem monitor (abides : first.Abides second) : second.monitor = first.monitor := by
  rw [abides.same]

theorem holds {before after : ClassTable} (abides : first.Abides second)
    (classes : ∀ {id cls}, before.class? id = some cls →
      ∃ cls', after.class? id = some cls' ∧ cls'.refSlots = cls.refSlots)
    {ref : Ref} (held : first.Holds before ref) : second.Holds after ref := by
  rw [abides.same]
  cases held with
  | field body linked traced held =>
      obtain ⟨cls', linked', same⟩ := classes linked
      exact .field body linked' (same ▸ traced) held
  | element body held => exact .element body held

end Object.Abides

namespace Machine

/-! ## Machines that stay as they are -/

/-- What is named otherwise than by a static field of a class whose initialization has not
begun. -/
inductive Anchors (machine : Machine) (ref : Ref) : Prop
  | cls {id : ClassId} {cls : Class} (linked : machine.registry.class? id = some cls)
      (begun : cls.initState ≠ .uninitialized) (held : cls.Names ref) : Anchors machine ref
  | mirror {id : ClassId} {cls : Class} (linked : machine.registry.class? id = some cls)
      (held : cls.mirror = some ref) : Anchors machine ref
  | other (named : { machine with registry := default }.Names ref) : Anchors machine ref

/-- What programs can still reach. -/
def Sustains (machine : Machine) : Ref → Prop :=
  machine.heap.Reaches machine.registry.toClassTable machine.Anchors

/-- Whether the objects that live are those that they were. -/
structure Harbours (before after : Machine) : Prop where
  spacious : after.Spacious
  pending : ∀ ref ∈ before.heap.pending, ref ∈ after.heap.pending
  pinned : after.heap.pinned = before.heap.pinned
  objects : ∀ {ref object}, before.Sustains ref → before.heap.get? ref = some object →
    ∃ object', after.heap.get? ref = some object' ∧ object.Abides object'

/-- Whether every execution is where it was, with the operands that it had, and what lives keeps its
lock. -/
structure Remains (before after : Machine) : Prop where
  exec : after.exec = { before.exec with skipBreakpoint := after.exec.skipBreakpoint }
  parked : after.parked = before.parked
  completed : after.completed = before.completed
  outOfMemory : after.outOfMemory = before.outOfMemory
  interned : ∀ (text : String) ref, before.interned[text]? = some ref →
    after.interned[text]? = some ref
  classes : ∀ {id cls}, before.registry.class? id = some cls →
    ∃ cls', after.registry.class? id = some cls' ∧ cls.Abides cls'
  monitors : ∀ id, (after.cls id).monitor = (before.cls id).monitor
  harbours : before.Spacious → before.Harbours after

variable {before between after machine : Machine} {ref : Ref}

theorem Names.of_anchors (anchors : machine.Anchors ref) : machine.Names ref := by
  cases anchors with
  | cls linked _ held => exact .cls (Array.mem_iff_getElem?.mpr ⟨_, linked⟩) held
  | mirror linked held => exact .cls (Array.mem_iff_getElem?.mpr ⟨_, linked⟩) (.mirror held)
  | other named =>
      cases named with
      | pending held => exact .pending held
      | pinned held => exact .pinned held
      | sticky place kept => exact .sticky place kept
      | interned canonical => exact .interned canonical
      | cls linked => exact absurd linked (Array.not_mem_empty _)
      | outOfMemory held => exact .outOfMemory held
      | running held => exact .running held
      | parked waits held => exact .parked waits held
      | completed kept => exact .completed kept

theorem Sustains.reachable (sustained : machine.Sustains ref) : machine.Reachable ref := by
  induction sustained with
  | root anchors => exact .root (.of_anchors anchors)
  | edge _ live held ih => exact .edge ih live held

namespace Remains

section

variable (remains : before.Remains after)

include remains

theorem method : after.exec.method = before.exec.method := by rw [remains.exec]

theorem pc : after.exec.pc = before.exec.pc := by rw [remains.exec]

theorem startSp : after.exec.startSp = before.exec.startSp := by rw [remains.exec]

theorem stack : after.exec.stack = before.exec.stack := by rw [remains.exec]

theorem frames : after.exec.frames = before.exec.frames := by
  rw [Execution.frames, Execution.frames, remains.stack, remains.method, remains.pc,
    remains.startSp]

theorem names (held : before.exec.Names ref) : after.exec.Names ref := by
  cases held with
  | slot below tagged held =>
      rw [← remains.stack] at below tagged held
      exact .slot below tagged held
  | pendingException held =>
      exact .pendingException ((congrArg Execution.pendingException remains.exec).trans held)
  | threadObject held =>
      exact .threadObject ((congrArg Execution.threadObject remains.exec).trans held)

theorem anchors (room : before.Spacious) (anchors : before.Anchors ref) : after.Anchors ref := by
  have harbours := remains.harbours room
  cases anchors with
  | cls linked begun held =>
      obtain ⟨cls', linked', same⟩ := remains.classes linked
      exact .cls linked' (same.begun begun).1 (same.names begun held)
  | mirror linked held =>
      obtain ⟨cls', linked', same⟩ := remains.classes linked
      exact .mirror linked' (same.mirror.trans held)
  | other named =>
      cases named with
      | pending held => exact .other (.pending (harbours.pending _ held))
      | pinned held => exact .other (.pinned (harbours.pinned.symm ▸ held))
      | sticky place kept =>
          have live := room.addressed.get?_ofIndex place kept
          obtain ⟨object', there, same⟩ :=
            harbours.objects (.root (.other (.sticky place kept))) live
          exact .other (names_of_sticky there (same.sticky kept))
      | interned canonical => exact .other (.interned (remains.interned _ _ canonical))
      | cls linked => exact absurd linked (Array.not_mem_empty _)
      | outOfMemory held => exact .other (.outOfMemory (remains.outOfMemory.trans held))
      | running held => exact .other (.running (remains.names held))
      | parked waits held => exact .other (.parked (remains.parked.symm ▸ waits) held)
      | completed kept => exact .other (.completed (remains.completed.symm ▸ kept))

theorem sustains (room : before.Spacious) (sustained : before.Sustains ref) :
    after.Sustains ref := by
  induction sustained with
  | root anchors => exact .root (remains.anchors room anchors)
  | edge reached live held ih =>
      obtain ⟨object', there, same⟩ := (remains.harbours room).objects reached live
      refine .edge ih there (same.holds (fun linked => ?_) held)
      obtain ⟨cls', linked', kept⟩ := remains.classes linked
      exact ⟨cls', linked', kept.refSlots⟩

/-- A class whose initialization has begun has begun it still, and has the same static fields. -/
theorem begun {id : ClassId} (begun : (before.cls id).initState ≠ .uninitialized) :
    (after.cls id).initState ≠ .uninitialized ∧
      (after.cls id).statics = (before.cls id).statics := by
  rw [cls, cls, ClassTable.get_eq_getD, ClassTable.get_eq_getD] at *
  cases linked : before.registry.class? id with
  | none =>
      rw [linked] at begun
      exact absurd rfl begun
  | some cls =>
      obtain ⟨cls', linked', same⟩ := remains.classes linked
      rw [linked] at begun
      rw [linked']
      exact same.begun begun

/-- The monitor of an object that lives is what it was. -/
theorem monitor?_object (room : before.Spacious) (sustained : before.Sustains ref)
    {monitor : Monitor} (found : before.monitor? (.object ref) = some monitor) :
    after.monitor? (.object ref) = some monitor := by
  obtain ⟨object, live, rfl⟩ := Option.map_eq_some_iff.mp found
  obtain ⟨object', there, same⟩ := (remains.harbours room).objects sustained live
  exact Option.map_eq_some_iff.mpr ⟨object', there, same.monitor⟩

end

theorem refl (machine : Machine) : machine.Remains machine where
  exec := rfl
  parked := rfl
  completed := rfl
  outOfMemory := rfl
  interned _ _ found := found
  classes {_ cls} linked := ⟨cls, linked, .refl cls⟩
  monitors _ := rfl
  harbours room := ⟨room, fun _ held => held, rfl, fun {_ object} _ live => ⟨object, live, .refl _⟩⟩

theorem trans (left : before.Remains between) (right : between.Remains after) :
    before.Remains after where
  exec := right.exec.trans (congrArg (fun exec : Execution =>
    { exec with skipBreakpoint := after.exec.skipBreakpoint }) left.exec)
  parked := right.parked.trans left.parked
  completed := right.completed.trans left.completed
  outOfMemory := right.outOfMemory.trans left.outOfMemory
  interned text ref found := right.interned text ref (left.interned text ref found)
  classes linked := by
    obtain ⟨middle, linked', same⟩ := left.classes linked
    obtain ⟨cls', linked'', same'⟩ := right.classes linked'
    exact ⟨cls', linked'', same.trans same'⟩
  monitors id := (right.monitors id).trans (left.monitors id)
  harbours room := by
    have first := left.harbours room
    have second := right.harbours first.spacious
    refine ⟨second.spacious, fun ref held => second.pending ref (first.pending ref held),
      second.pinned.trans first.pinned, fun reached live => ?_⟩
    obtain ⟨object', there, same⟩ := first.objects reached live
    obtain ⟨object'', there', same'⟩ := second.objects (left.sustains room reached) there
    exact ⟨object'', there', same.trans same'⟩

/-- Classes change, and nothing else does. -/
theorem of_registry {registry : Registry}
    (classes : ∀ {id cls}, machine.registry.class? id = some cls →
      ∃ cls', registry.class? id = some cls' ∧ cls.Abides cls')
    (monitors : ∀ id, (registry.get id).monitor = (machine.cls id).monitor) :
    machine.Remains { machine with registry } where
  exec := rfl
  parked := rfl
  completed := rfl
  outOfMemory := rfl
  interned _ _ found := found
  classes := classes
  monitors := monitors
  harbours room :=
    ⟨⟨room.balanced, room.small⟩, fun _ held => held, rfl,
      fun {_ object} _ live => ⟨object, live, .refl _⟩⟩

theorem of_prefixes {registry : Registry}
    (prefixes : machine.registry.Prefixes registry.toClassTable) :
    machine.Remains { machine with registry } :=
  of_registry (fun linked => ⟨_, prefixes.class? linked, .refl _⟩) prefixes.monitor_get

/-- A class that abides changes. -/
theorem modifyClass {id : ClassId} {change : Class → Class}
    (abides : ∀ cls, machine.registry.class? id = some cls → cls.Abides (change cls))
    (monitor : ∀ cls, (change cls).monitor = cls.monitor) :
    machine.Remains (machine.modifyClass id change) := by
  refine of_registry (fun {other cls} linked => ?_)
    fun other => machine.registry.view_modify id other change Class.monitor monitor
  by_cases same : id = other
  · subst same
    refine ⟨change cls, ?_, abides cls linked⟩
    exact (ClassTable.class?_modify ..).trans (by rw [if_pos rfl, linked, Option.map_some])
  · refine ⟨cls, ?_, .refl cls⟩
    exact (ClassTable.class?_modify ..).trans (by rw [if_neg same, linked])

/-- The debugger takes its notes. -/
theorem marked (machine : Machine) (debugger : Debugger) (mark : Option (MethodId × UInt32)) :
    machine.Remains (machine.marked debugger mark) where
  exec := rfl
  parked := rfl
  completed := rfl
  outOfMemory := rfl
  interned _ _ found := found
  classes {_ cls} linked := ⟨cls, linked, .refl cls⟩
  monitors _ := rfl
  harbours room :=
    ⟨⟨room.balanced, room.small⟩, fun _ held => held, rfl,
      fun {_ object} _ live => ⟨object, live, .refl _⟩⟩

/-- Objects are made. -/
theorem of_preserves {heap : Heap}
    (preserves : machine.Spacious → machine.Preserves { machine with heap }) :
    machine.Remains { machine with heap } where
  exec := rfl
  parked := rfl
  completed := rfl
  outOfMemory := rfl
  interned _ _ found := found
  classes {_ cls} linked := ⟨cls, linked, .refl cls⟩
  monitors _ := rfl
  harbours room := by
    have kept := preserves room
    exact ⟨kept.spacious room, kept.pending, kept.pinned, fun {_ object} sustained live =>
      ⟨object, kept.objects sustained.reachable live, .refl _⟩⟩

/-- A string becomes the canonical one of a text that had none. -/
theorem intern {text : String} (string : Ref) (fresh : machine.interned[text]? = none) :
    machine.Remains (machine.intern text string) where
  exec := rfl
  parked := rfl
  completed := rfl
  outOfMemory := rfl
  interned other canonical found := by
    have different : text ≠ other := by
      rintro rfl
      cases fresh.symm.trans found
    change (machine.interned.insert text string)[other]? = _
    rw [Std.HashMap.getElem?_insert, if_neg (by simpa using different)]
    exact found
  classes {_ cls} linked := ⟨cls, linked, .refl cls⟩
  monitors _ := rfl
  harbours room := by
    have rewrites : machine.heap.Rewrites (machine.intern text string).heap := .setSticky _ string
    refine ⟨⟨(Heap.Turn.keeps rewrites.toSameShapes rewrites.toSameCounts).balanced room.balanced,
      room.small⟩, fun _ held => held, rfl, fun {ref object} _ live => ?_⟩
    by_cases same : string = ref
    · refine ⟨{ object with sticky := true }, ?_, rfl, fun _ => rfl⟩
      exact (Heap.get?_modify ..).trans (by rw [if_pos same, live, Option.map_some])
    · exact ⟨object, (Heap.get?_modify ..).trans (by rw [if_neg same, live]), .refl _⟩

end Remains

/-! ## Heaps that are left alone -/

/-- Whether a class begins its initialization between two machines. It has static fields then,
unlike an array class, which is initialized when it is linked. -/
def Initiates (before after : Machine) : Prop :=
  ∃ id, (before.cls id).initState = .uninitialized ∧
    (after.cls id).initState ≠ .uninitialized ∧ (after.cls id).statics ≠ none

/-- Whether every execution is where it was and all locks are held as they were: the heap is what it
was, unless a class has begun its initialization. -/
structure Abides (before after : Machine) : Prop extends Remains before after where
  heap : ¬before.Initiates after → after.heap = before.heap

namespace Abides

theorem refl (machine : Machine) : machine.Abides machine := ⟨.refl machine, fun _ => rfl⟩

theorem trans (left : before.Abides between) (right : between.Abides after) :
    before.Abides after where
  toRemains := left.toRemains.trans right.toRemains
  heap idle := by
    have first : ¬before.Initiates between := fun ⟨id, fresh, begun, prepared⟩ => by
      obtain ⟨begun, same⟩ := right.begun begun
      exact idle ⟨id, fresh, begun, same ▸ prepared⟩
    have second : ¬between.Initiates after := fun ⟨id, fresh, begun⟩ =>
      idle ⟨id, Classical.not_not.mp fun begun' => (left.begun begun').1 fresh, begun⟩
    exact (right.heap second).trans (left.heap first)

/-- Whatever happens where a class begins its initialization, the heap may change. -/
theorem of_initiates (remains : before.Remains after) (initiates : before.Initiates after) :
    before.Abides after :=
  ⟨remains, fun idle => absurd initiates idle⟩

theorem of_registry {registry : Registry}
    (remains : machine.Remains { machine with registry }) :
    machine.Abides { machine with registry } :=
  ⟨remains, fun _ => rfl⟩

theorem modifyClass {id : ClassId} {change : Class → Class}
    (abides : ∀ cls, machine.registry.class? id = some cls → cls.Abides (change cls))
    (monitor : ∀ cls, (change cls).monitor = cls.monitor) :
    machine.Abides (machine.modifyClass id change) :=
  ⟨.modifyClass abides monitor, fun _ => rfl⟩

theorem marked (machine : Machine) (debugger : Debugger) (mark : Option (MethodId × UInt32)) :
    machine.Abides (machine.marked debugger mark) :=
  ⟨.marked machine debugger mark, fun _ => rfl⟩

end Abides

instance : IsPreorder Machine Remains where
  refl := .refl
  trans _ _ _ := .trans

instance : IsPreorder Machine Abides where
  refl := .refl
  trans _ _ _ := .trans

end Machine

end Jvm
