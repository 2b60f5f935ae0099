import Jvm.Proofs.Registry.Laying
import Jvm.Proofs.Heap.Balance
import Jvm.Proofs.Machine.Changes

/-!
# Changes that keep objects in shape

What is done to a machine is counted by its heap and keeps its objects in the shape of their
classes.
-/

/-!
## Changes that are counted

A change of a machine is counted if it does nothing else to the heap than what leaves it in
balance: objects keep their shapes, an object that fits is allocated, or garbage is swept.
Counted changes are changes, so what steps that go along them keep is what changes keep, and
the balance of the heap besides.
-/

namespace Jvm

namespace Machine

/-- What may be done at once in a scope, and is counted by the heap. -/
structure Counted (scope : Scope) (before after : Machine) : Prop where
  change : Change scope before after
  turn : before.heap.Turn after.heap

/-- What may be done by and by in a scope, and is counted by the heap. -/
abbrev CountedIn (scope : Scope) : Machine → Machine → Prop :=
  Relation.ReflTransGen (Counted scope)

/-- What may be done by and by, and is counted by the heap. -/
abbrev Counts : Machine → Machine → Prop := CountedIn .all

variable {scope : Scope} {before after : Machine}

/-- A collection marks and sweeps. -/
theorem turn_collectGarbage (machine : Machine) :
    machine.heap.Turn machine.collectGarbage.2.heap := by
  rw [heap_collectGarbage]
  exact .sweep machine.marks

namespace Counted

theorem turn_of_eq (heap : after.heap = before.heap) : before.heap.Turn after.heap := by
  rw [heap]
  exact .keeps (Heap.Writes.of_objects rfl rfl rfl).toSameShapes ⟨rfl, rfl, rfl⟩

theorem aside (frames : before.SameFrames after) (registry : after.registry = before.registry)
    (heap : after.heap = before.heap) (interned : after.interned = before.interned) :
    Counted scope before after :=
  ⟨.aside frames registry heap interned, turn_of_eq heap⟩

theorem frames (allowed : scope.frames) (registry : after.registry = before.registry)
    (heap : after.heap = before.heap) (interned : after.interned = before.interned) :
    Counted scope before after :=
  ⟨.frames allowed registry heap interned, turn_of_eq heap⟩

theorem link {registry : Registry} (prefixes : before.registry.Prefixes registry.toClassTable)
    (closes : before.registry.toClassTable.Closed → registry.toClassTable.Closed) :
    Counted scope before { before with registry } :=
  ⟨.link prefixes closes, turn_of_eq rfl⟩

theorem classes {registry : Registry}
    (alike : before.registry.toClassTable.Alike registry.toClassTable)
    (monitors : ∀ id, (registry.get id).monitor = (before.cls id).monitor) :
    Counted scope before { before with registry } :=
  ⟨.classes alike monitors, turn_of_eq rfl⟩

theorem resolve {owner : ClassId} {index : UInt16} {resolved : Constant}
    (denotes : before.Denotes owner ((before.cls owner).pool.slot index) resolved) :
    Counted scope before (before.setConstant owner index resolved) :=
  ⟨.resolve denotes, turn_of_eq rfl⟩

theorem write {heap : Heap} (rewrites : before.heap.Rewrites heap) :
    Counted scope before { before with heap } :=
  ⟨.write rewrites.toWrites, .keeps rewrites.toSameShapes rewrites.toSameCounts⟩

theorem insert {object : Object} (fits : before.heap.fits object.size = true)
    (new : object.IsNew) :
    Counted scope before { before with heap := (before.heap.insert object).2 } :=
  ⟨.insert new, .insert fits new.unmarked⟩

theorem collect : Counted scope before before.collectGarbage.2 :=
  ⟨.collect, before.turn_collectGarbage⟩

theorem intern {text : String} (ref : Ref) (fresh : before.interned[text]? = none) :
    Counted scope before (before.intern text ref) :=
  have rewrites := Heap.Rewrites.setSticky before.heap ref
  ⟨.intern ref fresh, .keeps rewrites.toSameShapes rewrites.toSameCounts⟩

theorem lock {lock : Lock} (allowed : scope.locks lock) {monitor held : Monitor}
    (found : before.monitor? lock = some held)
    (turned : held.enter before.exec.id = some monitor ∨
      held.exit before.exec.id = some monitor) :
    Counted scope before (before.setMonitor monitor lock) := by
  refine ⟨.lock allowed monitor found turned, .keeps (before.sameShapes_setMonitor monitor lock) ?_⟩
  cases lock <;> exact ⟨rfl, rfl, rfl⟩

theorem release (allowed : ∀ lock, scope.locks lock) (exec : ExecId) :
    Counted scope before (before.releaseLocks exec) :=
  ⟨.release allowed exec, .keeps (.releaseMonitors _ exec) ⟨rfl, rfl, rfl⟩⟩

end Counted

instance : Trans (CountedIn scope) (CountedIn scope) (CountedIn scope) :=
  ⟨Relation.ReflTransGen.trans⟩

namespace CountedIn

variable (counted : CountedIn scope before after)

include counted

theorem changes : ChangesIn scope before after := by
  induction counted with
  | refl => exact .refl
  | tail _ counted ih => exact ih.tail counted.change

/-- The heap stays in balance. -/
theorem balanced (balanced : before.heap.Balanced) : after.heap.Balanced := by
  induction counted with
  | refl => exact balanced
  | tail _ counted ih => exact counted.turn.balanced ih

theorem limit_eq : after.heap.limit = before.heap.limit := by
  induction counted with
  | refl => rfl
  | tail _ counted ih => exact counted.turn.limit_eq.trans ih

end CountedIn

/-- Whether a handle is given out on the way from a machine to another one: at some moment an
object is allocated where it fits, new as it is made, and the handle is that of the object. -/
def Issues (scope : Scope) (before : Machine) (ref : Ref) (after : Machine) : Prop :=
  ∃ (middle : Machine) (object : Object), CountedIn scope before middle ∧
    (middle.heap.fits object.size = true ∧ object.IsNew) ∧
    (middle.heap.insert object).1 = ref ∧
    CountedIn scope { middle with heap := (middle.heap.insert object).2 } after

namespace Issues

variable {between : Machine} {ref : Ref}

theorem earlier (counted : CountedIn scope before between)
    (issues : between.Issues scope ref after) : before.Issues scope ref after := by
  obtain ⟨middle, object, reached, fits, given, left⟩ := issues
  exact ⟨middle, object, counted.trans reached, fits, given, left⟩

theorem later (issues : before.Issues scope ref between)
    (counted : CountedIn scope between after) : before.Issues scope ref after := by
  obtain ⟨middle, object, reached, fits, given, left⟩ := issues
  exact ⟨middle, object, reached, fits, given, left.trans counted⟩

theorem counted (issues : before.Issues scope ref after) : CountedIn scope before after := by
  obtain ⟨middle, object, reached, fits, -, left⟩ := issues
  exact (reached.tail (.insert fits.1 fits.2)).trans left

end Issues

/-! ### Steps that go along counted changes -/

/-- Whether a step goes along counted changes in a scope, from wherever and however it
ends. -/
def TalliesIn (scope : Scope) {ε α : Type} (step : EStateM ε Machine α) : Prop :=
  ∀ machine, Moves (CountedIn scope) step machine fun _ _ => True

namespace TalliesIn

variable {ε α : Type} {step : EStateM ε Machine α} (paces : TalliesIn scope step)

include paces

theorem ok {machine after : Machine} {value : α} (ran : step machine = .ok value after) :
    CountedIn scope machine after :=
  (ends_of_ok ran (paces machine)).1

theorem error {machine after : Machine} {raised : ε} (ran : step machine = .error raised after) :
    CountedIn scope machine after := by
  have counts := ends_of_error ran (paces machine)
  exact counts

/-- What goes along counted changes goes along changes. -/
theorem walks : WalksIn scope step :=
  fun machine => (paces machine).of_related fun _ counted => counted.changes

end TalliesIn

/-- Whether a step goes along counted changes, and gives out on the way the handle that it
returns. -/
def AllotsIn (scope : Scope) {ε : Type} (step : EStateM ε Machine Ref) : Prop :=
  ∀ machine, Moves (CountedIn scope) step machine (machine.Issues scope)

namespace AllotsIn

variable {ε α : Type}

theorem paces {step : EStateM ε Machine Ref} (allots : AllotsIn scope step) : TalliesIn scope step :=
  fun machine => (allots machine).mono fun _ _ _ _ => trivial

/-- What a step does before it gives a handle out. -/
theorem preceded {step : EStateM ε Machine α} {next : α → EStateM ε Machine Ref}
    (first : TalliesIn scope step) (rest : ∀ value, AllotsIn scope (next value)) :
    AllotsIn scope (step >>= next) :=
  fun machine => (first machine).bind fun value reached counted _ =>
    (rest value reached).mono fun _ _ _ issues => issues.earlier counted

theorem get_bind {next : Machine → EStateM ε Machine Ref}
    (rest : ∀ machine, AllotsIn scope (next machine)) : AllotsIn scope (get >>= next) :=
  .preceded (fun _ => ends_get.mpr ⟨.refl, trivial⟩) rest

/-- What a step does with a handle that it has given out before it returns it. -/
theorem followed {step : EStateM ε Machine Ref} {next : Ref → EStateM ε Machine Ref}
    (allots : AllotsIn scope step)
    (rest : ∀ ref machine, Moves (CountedIn scope) (next ref) machine fun other _ => other = ref) :
    AllotsIn scope (step >>= next) := by
  refine fun machine => (allots machine).bind fun ref reached _ issues => ?_
  refine (rest ref reached).mono fun other last counted same => ?_
  rw [same]
  exact issues.later counted

end AllotsIn

end Machine

end Jvm

/-!
## Objects in shape

An object is in shape if it has room for what objects of its class have room for: an instance
for the slots that the class has laid out, an array for elements that are stored as those of
its class. Objects are made in shape and written in shape, and what programs change of a class
is no part of its layout. So a machine whose objects are in shape, and which knows classes to
make objects of, stays so along all changes but the allocation of other objects.
-/

namespace Jvm

/-! ### Tables and heaps -/

namespace ClassTable

/-- Whether an object has room for what objects of its class have room for. -/
structure Forms (table : ClassTable) (object : Object) : Prop where
  known : table.Has object.cls
  form : object.body.form = (table.get object.cls).form

/-- Whether instances are made of a class. -/
structure Makes (table : ClassTable) (id : ClassId) : Prop where
  known : table.Has id
  array : (table.get id).array = none

/-- Whether the classes of a table are still there and have changed in nothing but what
programs change. -/
def KeepsFixed (before after : ClassTable) : Prop :=
  ∀ id, before.Has id → after.Has id ∧ (after.get id).fixed = (before.get id).fixed

variable {before after : ClassTable}

theorem KeepsFixed.forms (keeps : before.KeepsFixed after) {object : Object}
    (forms : before.Forms object) : after.Forms object := by
  obtain ⟨known, fixed⟩ := keeps object.cls forms.known
  exact ⟨known, forms.form.trans (Class.view_of_fixed Class.form (fun _ => rfl) fixed).symm⟩

theorem KeepsFixed.makes (keeps : before.KeepsFixed after) {id : ClassId}
    (makes : before.Makes id) : after.Makes id := by
  obtain ⟨known, fixed⟩ := keeps id makes.known
  exact ⟨known, (Class.view_of_fixed Class.array (fun _ => rfl) fixed).trans makes.array⟩

/-- An array class is one that is there. -/
theorem has_of_array {table : ClassTable} {id : ClassId} {info : ArrayInfo}
    (array : (table.get id).array = some info) : table.Has id := by
  by_contra unknown
  rw [get, Array.getD_eq_getD_getElem?, Array.getElem?_eq_none (Nat.le_of_not_lt unknown)] at array
  cases array

/-- A new instance has the slots that its class has laid out. -/
theorem Makes.forms {table : ClassTable} {id : ClassId} (makes : table.Makes id) (hash : Int32) :
    table.Forms
      { cls := id, hash, body := .instance (Fields.ofSize (table.get id).instanceSlots.toNat) } where
  known := makes.known
  form := by rw [Body.form, Fields.size_ofSize, Class.form, makes.array]

/-- Instances are made of a class that is not abstract. -/
theorem Laid.makes_of_concrete {table : ClassTable} (laid : table.Laid) {id : ClassId}
    (known : table.Has id) (concrete : (table.get id).isAbstract = false) : table.Makes id := by
  refine ⟨known, ?_⟩
  cases array : (table.get id).array with
  | none => rfl
  | some info =>
      have abstract := (laid.arrays id known (by rw [Class.isArray, array]; rfl)).2
      cases concrete.symm.trans abstract

/-- Instances are made of a class whose name is no array's. -/
theorem Laid.makes_of_ordinary {table : ClassTable} (laid : table.Laid) {name : String} {id : ClassId}
    (ordinary : ArrayName.isArrayName name = false) (found : table.find? name = some id) :
    table.Makes id := by
  obtain ⟨known, same⟩ := laid.names name id found
  refine ⟨known, ?_⟩
  cases array : (table.get id).array with
  | none => rfl
  | some info =>
      have named := (laid.arrays id known (by rw [Class.isArray, array]; rfl)).1
      rw [same, ordinary] at named
      cases named

end ClassTable

/-- Whether all objects of a heap have room for what objects of their classes have room for. -/
def Heap.FormedIn (heap : Heap) (table : ClassTable) : Prop :=
  ∀ index object, heap.objects.getD index none = some object → table.Forms object

namespace Heap.FormedIn

variable {heap : Heap} {table : ClassTable} (formed : heap.FormedIn table)

include formed

theorem keep {after : ClassTable} (keeps : table.KeepsFixed after) : heap.FormedIn after :=
  fun index object held => keeps.forms (formed index object held)

theorem sameForms {other : Heap} (same : heap.SameForms other) : other.FormedIn table := by
  intro index object held
  have form := same.forms index
  rw [held, Option.map_some, eq_comm, Option.map_eq_some_iff] at form
  obtain ⟨old, before, alike⟩ := form
  obtain ⟨cls, body⟩ := Prod.mk.inj alike
  have forms := formed index old before
  exact ⟨cls ▸ forms.known, body ▸ cls ▸ forms.form⟩

theorem insert {object : Object} (forms : table.Forms object) :
    (heap.insert object).2.FormedIn table := by
  intro index other held
  rcases Heap.eq_or_held_of_insert held with rfl | before
  · exact forms
  · exact formed index other before

theorem swept (marks : Nat → Bool) : (heap.swept marks).FormedIn table := by
  intro index object held
  obtain ⟨found, here, rfl⟩ := exists_of_swept held
  have forms := formed index found here
  exact ⟨forms.known, forms.form⟩

end Heap.FormedIn

/-- Whether a machine knows classes to make class objects, strings, threads and arrays of bytes
of. -/
structure WellKnown.MadeIn (table : ClassTable) (known : WellKnown) : Prop where
  cls : table.Makes known.cls
  string : table.Makes known.string
  thread : table.Makes known.thread
  byteArray : table.Has known.byteArray ∧ (table.get known.byteArray).form = .elements .byte

theorem WellKnown.MadeIn.keep {before after : ClassTable} {known : WellKnown}
    (made : known.MadeIn before) (keeps : before.KeepsFixed after) : known.MadeIn after where
  cls := keeps.makes made.cls
  string := keeps.makes made.string
  thread := keeps.makes made.thread
  byteArray := by
    obtain ⟨linked, form⟩ := made.byteArray
    obtain ⟨has, fixed⟩ := keeps known.byteArray linked
    exact ⟨has, (Class.view_of_fixed Class.form (fun _ => rfl) fixed).trans form⟩

namespace Machine

/-! ### Machines -/

/-- Whether the objects of a machine are in shape, and those will be that it makes of the
classes that it knows. -/
structure Shapely (machine : Machine) : Prop extends machine.Proper where
  laid : machine.registry.Laid
  known : machine.known.MadeIn machine.registry.toClassTable
  objects : machine.heap.FormedIn machine.registry.toClassTable

namespace Shapely

variable {machine after : Machine} (shapely : machine.Shapely)

include shapely

theorem of_same (registry : after.registry = machine.registry) (heap : after.heap = machine.heap)
    (known : after.known = machine.known) : after.Shapely := by
  refine ⟨⟨?_, ?_⟩, ?_, ?_, ?_⟩
  · exact registry ▸ shapely.closed
  · exact heap ▸ shapely.accounted
  · exact registry ▸ shapely.laid
  · exact registry ▸ known ▸ shapely.known
  · exact registry ▸ heap ▸ shapely.objects

theorem of_heap {heap : Heap} (accounted : heap.Accounted)
    (objects : heap.FormedIn machine.registry.toClassTable) : { machine with heap }.Shapely :=
  ⟨⟨shapely.closed, accounted⟩, shapely.laid, shapely.known, objects⟩

theorem of_registry {registry : Registry} (closed : registry.toClassTable.Closed)
    (laid : registry.Laid) (keeps : machine.registry.KeepsFixed registry.toClassTable) :
    { machine with registry }.Shapely :=
  ⟨⟨closed, shapely.accounted⟩, laid, shapely.known.keep keeps, shapely.objects.keep keeps⟩

/-- Classes go on in what programs change. -/
theorem of_fixed {registry : Registry} (closed : registry.toClassTable.Closed)
    (size : registry.size = machine.registry.size)
    (found : ∀ name, registry.find? name = machine.registry.find? name)
    (fixed : ∀ id, (registry.get id).fixed = (machine.cls id).fixed) :
    { machine with registry }.Shapely :=
  shapely.of_registry closed (shapely.laid.of_fixed size found fixed) fun id known =>
    ⟨Nat.lt_of_lt_of_eq known size.symm, fixed id⟩

theorem forms {ref : Ref} {object : Object} (live : machine.heap.get? ref = some object) :
    machine.registry.Forms object :=
  shapely.objects ref.index object live

end Shapely

/-! ### Changes -/

variable {scope : Scope} {before between after : Machine}

/-- What may be done at once in a scope, is counted by the heap and keeps objects in shape. -/
structure Shaped (scope : Scope) (before after : Machine) : Prop where
  counted : Counted scope before after
  known : after.known = before.known
  shapely : before.Shapely → after.Shapely

/-- What may be done by and by in a scope, is counted by the heap and keeps objects in
shape. -/
structure ShapedIn (scope : Scope) (before after : Machine) : Prop where
  counted : CountedIn scope before after
  known : after.known = before.known
  shapely : before.Shapely → after.Shapely

/-- What may be done by and by, is counted by the heap and keeps objects in shape. -/
abbrev Shapes : Machine → Machine → Prop := ShapedIn .all

namespace Shaped

theorem of_same (counted : Counted scope before after) (registry : after.registry = before.registry)
    (heap : after.heap = before.heap) (known : after.known = before.known) :
    Shaped scope before after :=
  ⟨counted, known, fun shapely => shapely.of_same registry heap known⟩

theorem aside (frames : before.SameFrames after) (registry : after.registry = before.registry)
    (heap : after.heap = before.heap) (interned : after.interned = before.interned)
    (known : after.known = before.known) : Shaped scope before after :=
  .of_same (.aside frames registry heap interned) registry heap known

theorem frames (allowed : scope.frames) (registry : after.registry = before.registry)
    (heap : after.heap = before.heap) (interned : after.interned = before.interned)
    (known : after.known = before.known) : Shaped scope before after :=
  .of_same (.frames allowed registry heap interned) registry heap known

theorem link {registry : Registry} (prefixes : before.registry.Prefixes registry.toClassTable)
    (closes : before.registry.toClassTable.Closed → registry.toClassTable.Closed)
    (lays : before.registry.Laid → registry.Laid) :
    Shaped scope before { before with registry } where
  counted := .link prefixes closes
  known := rfl
  shapely shapely := shapely.of_registry (closes shapely.closed) (lays shapely.laid)
    fun id known => ⟨prefixes.has known, congrArg Class.fixed (prefixes.classes id known)⟩

theorem classes {registry : Registry}
    (alike : before.registry.toClassTable.Alike registry.toClassTable)
    (monitors : ∀ id, (registry.get id).monitor = (before.cls id).monitor)
    (fixed : ∀ id, (registry.get id).fixed = (before.cls id).fixed) :
    Shaped scope before { before with registry } where
  counted := .classes alike monitors
  known := rfl
  shapely shapely := shapely.of_fixed (alike.closed shapely.closed) alike.bounded alike.found fixed

theorem resolve {owner : ClassId} {index : UInt16} {resolved : Constant}
    (denotes : before.Denotes owner ((before.cls owner).pool.slot index) resolved) :
    Shaped scope before (before.setConstant owner index resolved) where
  counted := .resolve denotes
  known := rfl
  shapely shapely := by
    have change : Change scope before (before.setConstant owner index resolved) := .resolve denotes
    have proper := change.proper shapely.toProper
    exact shapely.of_fixed proper.closed (ClassTable.size_modify ..) (fun _ => rfl) fun id =>
      before.registry.view_modify owner id _ Class.fixed fun _ => rfl

theorem write {heap : Heap} (rewrites : before.heap.Rewrites heap) :
    Shaped scope before { before with heap } where
  counted := .write rewrites
  known := rfl
  shapely shapely := shapely.of_heap (rewrites.toWrites.accounted shapely.accounted)
    (shapely.objects.sameForms rewrites.toSameForms)

theorem collect : Shaped scope before before.collectGarbage.2 where
  counted := .collect
  known := rfl
  shapely shapely := by
    rw [collectGarbage_eq]
    exact shapely.of_heap (shapely.accounted.swept _) (shapely.objects.swept _)

theorem intern {text : String} (ref : Ref) (fresh : before.interned[text]? = none) :
    Shaped scope before (before.intern text ref) where
  counted := .intern ref fresh
  known := rfl
  shapely shapely := (shapely.of_heap ((Heap.Writes.setSticky _ ref).accounted shapely.accounted)
    (shapely.objects.sameForms (.setSticky _ ref))).of_same rfl rfl rfl

theorem lock {lock : Lock} (allowed : scope.locks lock) {monitor held : Monitor}
    (found : before.monitor? lock = some held)
    (turned : held.enter before.exec.id = some monitor ∨
      held.exit before.exec.id = some monitor) :
    Shaped scope before (before.setMonitor monitor lock) where
  counted := .lock allowed found turned
  known := by cases lock <;> rfl
  shapely shapely := by
    cases lock with
    | object ref =>
        exact shapely.of_heap
          ((before.sameShapes_setMonitor monitor (.object ref)).accounted shapely.accounted)
          (shapely.objects.sameForms (.modify _ ref fun _ => rfl))
    | cls id =>
        have alike := before.alike_setMonitor monitor (.cls id)
        exact shapely.of_fixed (alike.closed shapely.closed) alike.bounded alike.found fun other =>
          before.registry.view_modify id other _ Class.fixed fun _ => rfl

theorem release (allowed : ∀ lock, scope.locks lock) (exec : ExecId) :
    Shaped scope before (before.releaseLocks exec) where
  counted := .release allowed exec
  known := rfl
  shapely shapely := by
    have alike := before.alike_releaseLocks exec
    have freed := shapely.of_heap
      ((Heap.SameShapes.releaseMonitors _ exec).accounted shapely.accounted)
      (shapely.objects.sameForms (.releaseMonitors _ exec))
    refine freed.of_fixed (alike.closed shapely.closed) alike.bounded alike.found fun id => ?_
    refine before.registry.view_map _ Class.fixed (fun cls => ?_) id
    split <;> rfl

end Shaped

namespace ShapedIn

theorem refl : ShapedIn scope before before := ⟨.refl, rfl, fun shapely => shapely⟩

theorem single (shaped : Shaped scope before after) : ShapedIn scope before after :=
  ⟨.single shaped.counted, shaped.known, shaped.shapely⟩

theorem trans (left : ShapedIn scope before between) (right : ShapedIn scope between after) :
    ShapedIn scope before after where
  counted := left.counted.trans right.counted
  known := right.known.trans left.known
  shapely shapely := right.shapely (left.shapely shapely)

theorem tail (left : ShapedIn scope before between) (last : Shaped scope between after) :
    ShapedIn scope before after :=
  left.trans (.single last)

theorem changes (shaped : ShapedIn scope before after) : ChangesIn scope before after :=
  shaped.counted.changes

/-- A class that instances are made of stays one. -/
theorem makes (shaped : ShapedIn scope before after) (proper : before.Proper) {id : ClassId}
    (makes : before.registry.Makes id) : after.registry.Makes id := by
  have resembles := (shaped.changes.caches proper).classes
  exact ⟨resembles.has makes.known, (resembles.classes id makes.known).array.trans makes.array⟩

end ShapedIn

instance : Trans (ShapedIn scope) (ShapedIn scope) (ShapedIn scope) := ⟨ShapedIn.trans⟩

/-! ### Steps that keep objects in shape -/

/-- Whether a step goes in a scope along changes that keep objects in shape, from wherever and
however it ends. -/
def PacesIn (scope : Scope) {ε α : Type} (step : EStateM ε Machine α) : Prop :=
  ∀ machine, Moves (ShapedIn scope) step machine fun _ _ => True

/-- Whether a step goes along changes that keep objects in shape, from wherever and however it
ends. -/
abbrev Paces {ε α : Type} (step : EStateM ε Machine α) : Prop := PacesIn .all step

namespace PacesIn

variable {ε α β : Type}

protected theorem pure (value : α) : PacesIn scope (pure value : EStateM ε Machine α) :=
  fun _ => Moves.pure .refl trivial

protected theorem throw (raised : ε) : PacesIn scope (throw raised : EStateM ε Machine α) :=
  fun _ => Moves.throw .refl

protected theorem get : PacesIn scope (get : EStateM ε Machine Machine) :=
  fun _ => ends_get.mpr ⟨.refl, trivial⟩

protected theorem bind {step : EStateM ε Machine β} {next : β → EStateM ε Machine α}
    (first : PacesIn scope step) (rest : ∀ value, PacesIn scope (next value)) :
    PacesIn scope (step >>= next) :=
  fun machine => (first machine).bind fun value after _ _ => rest value after

/-- What follows a look at the state may depend on it. -/
theorem get_bind {next : Machine → EStateM ε Machine α}
    (rest : ∀ machine, Moves (ShapedIn scope) (next machine) machine fun _ _ => True) :
    PacesIn scope (get >>= next) :=
  fun machine => Moves.get_bind (rest machine)

protected theorem modify {change : Machine → Machine}
    (counts : ∀ machine, ShapedIn scope machine (change machine)) :
    PacesIn scope (modify change : EStateM ε Machine PUnit) :=
  fun machine => Moves.modify (counts machine) trivial

protected theorem modifyGet {change : Machine → α × Machine}
    (counts : ∀ machine, ShapedIn scope machine (change machine).2) :
    PacesIn scope (modifyGet change : EStateM ε Machine α) :=
  fun machine => Moves.modifyGet (counts machine) trivial

protected theorem set {after : Machine} {machine : Machine}
    (counts : ShapedIn scope machine after) :
    Moves (ShapedIn scope) (set after : EStateM ε Machine PUnit) machine fun _ _ => True :=
  ends_set.mpr ⟨counts, trivial⟩

theorem ok {step : EStateM ε Machine α} (paces : PacesIn scope step)
    {machine after : Machine} {value : α} (ran : step machine = .ok value after) :
    ShapedIn scope machine after :=
  (ends_of_ok ran (paces machine)).1

theorem error {step : EStateM ε Machine α} (paces : PacesIn scope step)
    {machine after : Machine} {raised : ε} (ran : step machine = .error raised after) :
    ShapedIn scope machine after := by
  have counts := ends_of_error ran (paces machine)
  exact counts

/-- What keeps objects in shape goes along changes. -/
theorem walks {step : EStateM ε Machine α} (paces : PacesIn scope step) : WalksIn scope step :=
  fun machine => (paces machine).of_related fun _ shaped => shaped.changes

/-- What keeps objects in shape is counted by the heap. -/
theorem tallies {step : EStateM ε Machine α} (paces : PacesIn scope step) :
    TalliesIn scope step :=
  fun machine => (paces machine).of_related fun _ shaped => shaped.counted

end PacesIn

end Machine

end Jvm
