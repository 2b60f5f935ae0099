import Jvm.Machine.Unwind
import Jvm.Proofs.Heap.Accounts
import Jvm.Proofs.Registry.Linking

/-!
# Machines that name linked classes only

A machine is closed if the ids in its class table, the classes of its live
objects and the classes that it uses itself are all linked. Most of what an
instruction does is calm: it keeps the machine closed, leaves every frame as it is
and begins or ends no initialization, though it may link classes, allocate and
collect on the way.
-/

namespace Jvm

/-! ## Objects -/

namespace Heap

/-- Drawing a hash counts it and changes nothing else. -/
theorem nextHash_eq (heap : Heap) :
    ∃ hash drawn, heap.nextHash = (hash, { heap with drawn }) :=
  ⟨_, _, nextHash.eq_def heap⟩

/-- Whether the live objects of a heap are of classes of a table. -/
def ClassesIn (heap : Heap) (table : ClassTable) : Prop :=
  ∀ index object, heap.objects.getD index none = some object → table.Has object.cls

namespace ClassesIn

variable {heap : Heap} {table : ClassTable} (classes : heap.ClassesIn table)

include classes

theorem grow {after : ClassTable} (grows : table.GrowsTo after) : heap.ClassesIn after :=
  fun index object held => grows.has (classes index object held)

theorem congr {other : Heap} (same : other.objects = heap.objects) : other.ClassesIn table := by
  rw [ClassesIn, same]
  exact classes

theorem has_of_class? {ref : Ref} {id : ClassId} (live : heap.class? ref = some id) :
    table.Has id := by
  obtain ⟨object, held, rfl⟩ := Option.map_eq_some_iff.mp live
  exact classes ref.index object held

theorem modify (ref : Ref) {change : Object → Object}
    (same : ∀ object, (change object).cls = object.cls) :
    (heap.modify ref change).ClassesIn table := by
  intro index object held
  rw [Heap.getD_objects_modify] at held
  split at held
  · obtain ⟨old, place, rfl⟩ := Option.map_eq_some_iff.mp held
    rw [same]
    exact classes index old place
  · exact classes index object held

theorem modifyFields (ref : Ref) (change : Fields → Fields) :
    (heap.modifyFields ref change).ClassesIn table := by
  apply classes.modify
  rintro ⟨cls, hash, body, marked, sticky, monitor⟩
  cases body <;> rfl

theorem modifyArray (ref : Ref) (change : ArrayData → ArrayData) :
    (heap.modifyArray ref change).ClassesIn table := by
  apply classes.modify
  rintro ⟨cls, hash, body, marked, sticky, monitor⟩
  cases body <;> rfl

theorem setSticky (ref : Ref) : (heap.setSticky ref).ClassesIn table :=
  classes.modify ref fun _ => rfl

theorem insert {object : Object} (known : table.Has object.cls) :
    (heap.insert object).2.ClassesIn table := by
  intro index other held
  rcases eq_or_held_of_insert held with rfl | before
  · exact known
  · exact classes index other before

theorem collect (layout : ClassTable) (roots : List Ref) :
    (heap.collect layout roots).2.ClassesIn table := by
  intro index object held
  have swept := mark_eq_marking layout heap.objects.size roots (heap, 0)
  change (mark layout heap.objects.size roots (heap, 0)).1.sweep.objects.getD index none = _ at held
  rw [swept] at held
  obtain ⟨found, here, rfl⟩ := exists_of_swept held
  exact classes index found here

theorem releaseMonitors (exec : ExecId) : (heap.releaseMonitors exec).ClassesIn table := by
  intro index object held
  simp only [Heap.releaseMonitors, Array.getD_eq_getD_getElem?, Array.getElem?_map] at held
  have before := classes index
  simp only [Array.getD_eq_getD_getElem?] at before
  cases place : heap.objects[index]? with
  | none => simp [place] at held
  | some kept =>
      rw [place, Option.map_some, Option.getD_some, Option.map_eq_some_iff] at held
      obtain ⟨old, rfl, rfl⟩ := held
      have known := before old (by rw [place, Option.getD_some])
      split <;> exact known

end ClassesIn

end Heap

/-! ## The end of an initializer -/

namespace ClassTable

variable {table : ClassTable} {id other : ClassId} {succeeded : Bool}

/-- The state of a class whose initializer has ended. -/
def endState (succeeded : Bool) : InitState := if succeeded then .initialized else .failed

/-- What holds of a table holds once an initializer has ended, if it is kept whenever a
class is given the state of that end. -/
theorem finishInitialization_induct {motive : ClassTable → Prop} (start : motive table)
    (step : ∀ table id, motive table →
      motive (table.modify id fun cls => { cls with initState := endState succeeded })) :
    motive (table.finishInitialization id succeeded) := by
  have kept : ∀ (ids : List ClassId) (start : ClassTable), motive start →
      motive (ids.foldl (fun table id => table.modify id fun cls =>
        { cls with initState := endState succeeded }) start) := by
    intro ids
    induction ids with
    | nil => exact fun _ holds => holds
    | cons id ids ih => exact fun start holds => ih _ (step start id holds)
  exact kept (table.waiting id) table start

/-- What is read of a class besides its state is the same once an initializer has ended. -/
theorem view_finishInitialization {α : Type} (view : Class → α)
    (same : ∀ (cls : Class) state, view { cls with initState := state } = view cls)
    (other : ClassId) :
    view ((table.finishInitialization id succeeded).get other) = view (table.get other) := by
  apply finishInitialization_induct (motive := fun after =>
    view (after.get other) = view (table.get other)) rfl
  exact fun start changed kept =>
    (start.view_modify changed other _ view fun cls => same cls (endState succeeded)).trans kept

/-- A class waits for itself. -/
theorem mem_waiting_self (table : ClassTable) (id : ClassId) : id ∈ table.waiting id := by
  have kept : ∀ (indices : List Nat) (found : List ClassId), id ∈ found →
      id ∈ indices.foldl (fun found index =>
        if found.any fun above => table.waitsFor ⟨index⟩ above then ⟨index⟩ :: found else found)
        found := by
    intro indices
    induction indices with
    | nil => exact fun found member => member
    | cons index indices ih =>
        intro found member
        rw [List.foldl_cons]
        apply ih
        split
        · exact .tail _ member
        · exact member
  exact kept _ [id] (.head _)

/-- The classes that wait for an initializer take the state of its end. -/
theorem get_finishInitialization (known : table.Has other) :
    (table.finishInitialization id succeeded).get other =
      if other ∈ table.waiting id then { table.get other with initState := endState succeeded }
      else table.get other := by
  have each : ∀ (ids : List ClassId) (start : ClassTable), start.Has other →
      (ids.foldl (fun table id => table.modify id fun cls =>
        { cls with initState := endState succeeded }) start).get other =
        if other ∈ ids then { start.get other with initState := endState succeeded }
        else start.get other := by
    intro ids
    induction ids with
    | nil => exact fun _ _ => (if_neg List.not_mem_nil).symm
    | cons id ids ih =>
        intro start known
        rw [List.foldl_cons, ih _ ((has_modify ..).mpr known), get_modify start id other _ known]
        by_cases same : id = other
        · simp only [same, if_pos, List.mem_cons, true_or, ite_self]
        · simp only [if_neg same, List.mem_cons, Ne.symm same, false_or]
  exact each (table.waiting id) table known

end ClassTable

/-! ## Machines -/

/-- Whether the classes that a machine uses itself are those of a table. -/
structure WellKnown.IdsIn (table : ClassTable) (known : WellKnown) : Prop where
  object : table.Has known.object
  cls : table.Has known.cls
  string : table.Has known.string
  byteArray : table.Has known.byteArray
  cloneable : table.Has known.cloneable
  throwable : table.Has known.throwable
  thread : table.Has known.thread

theorem WellKnown.IdsIn.grow {before after : ClassTable} {known : WellKnown}
    (ids : known.IdsIn before) (grows : before.GrowsTo after) : known.IdsIn after where
  object := grows.has ids.object
  cls := grows.has ids.cls
  string := grows.has ids.string
  byteArray := grows.has ids.byteArray
  cloneable := grows.has ids.cloneable
  throwable := grows.has ids.throwable
  thread := grows.has ids.thread

/-- Whether an execution is in the frame of another one with the same stack. -/
structure Execution.Untouched (before after : Execution) : Prop where
  id : after.id = before.id
  stack : after.stack = before.stack
  method : after.method = before.method
  startSp : after.startSp = before.startSp

namespace Execution.Untouched

variable {first second third : Execution}

theorem refl (exec : Execution) : Untouched exec exec := ⟨rfl, rfl, rfl, rfl⟩

theorem trans (left : Untouched first second) (right : Untouched second third) :
    Untouched first third where
  id := right.id.trans left.id
  stack := right.stack.trans left.stack
  method := right.method.trans left.method
  startSp := right.startSp.trans left.startSp

end Execution.Untouched

namespace Machine

/-- Whether every class that a machine names is linked. -/
structure Closed (machine : Machine) : Prop where
  registry : machine.registry.Closed
  known : machine.known.IdsIn machine.registry.toClassTable
  heap : machine.heap.ClassesIn machine.registry.toClassTable

/-- Whether a machine has changed, if at all, in nothing that concerns frames, and
names linked classes only. -/
structure Stays (before after : Machine) : Prop where
  grows : before.registry.GrowsTo after.registry.toClassTable
  closed : after.Closed
  exec : before.exec.Untouched after.exec
  parked : after.parked = before.parked
  config : after.config = before.config
  nextExec : after.nextExec = before.nextExec

/-- Whether a machine has changed, if at all, in nothing that concerns frames or the
progress of initialization, and names linked classes only. -/
structure Calm (before after : Machine) : Prop extends Stays before after where
  rests : before.registry.Rests after.registry

section

variable {first second third : Machine}

theorem Stays.trans (left : first.Stays second) (right : second.Stays third) :
    first.Stays third where
  grows := left.grows.trans right.grows
  closed := right.closed
  exec := left.exec.trans right.exec
  parked := right.parked.trans left.parked
  config := right.config.trans left.config
  nextExec := right.nextExec.trans left.nextExec

theorem Calm.trans (left : first.Calm second) (right : second.Calm third) : first.Calm third where
  toStays := left.toStays.trans right.toStays
  rests := left.rests.trans left.grows right.rests

end

instance : Trans Calm Calm Calm := ⟨Calm.trans⟩

namespace Closed

variable {machine : Machine} (closed : machine.Closed)

include closed

theorem has_of_class? {ref : Ref} {id : ClassId} (live : machine.heap.class? ref = some id) :
    machine.registry.Has id :=
  closed.heap.has_of_class? live

theorem stays_refl : machine.Stays machine := ⟨.refl _, closed, .refl _, rfl, rfl, rfl⟩

theorem calm_refl : machine.Calm machine := ⟨closed.stays_refl, .refl _⟩

theorem calm_heap {heap : Heap} (classes : heap.ClassesIn machine.registry.toClassTable) :
    machine.Calm { machine with heap } :=
  ⟨⟨.refl _, ⟨closed.registry, closed.known, classes⟩, .refl _, rfl, rfl, rfl⟩, .refl _⟩

theorem calm_modifyHeap {change : Heap → Heap}
    (classes : (change machine.heap).ClassesIn machine.registry.toClassTable) :
    machine.Calm (machine.modifyHeap change) :=
  closed.calm_heap classes

theorem calm_modifyExec {change : Execution → Execution}
    (same : machine.exec.Untouched (change machine.exec)) :
    machine.Calm (machine.modifyExec change) :=
  ⟨⟨.refl _, ⟨closed.registry, closed.known, closed.heap⟩, same, rfl, rfl, rfl⟩, .refl _⟩

theorem stays_registry {registry : Registry} (after : registry.Closed)
    (grows : machine.registry.GrowsTo registry.toClassTable) :
    machine.Stays { machine with registry } :=
  ⟨grows, ⟨after, closed.known.grow grows, closed.heap.grow grows⟩, .refl _, rfl, rfl, rfl⟩

theorem calm_registry {registry : Registry} (after : registry.Closed)
    (grows : machine.registry.GrowsTo registry.toClassTable)
    (rests : machine.registry.Rests registry) : machine.Calm { machine with registry } :=
  ⟨closed.stays_registry after grows, rests⟩

theorem stays_modifyTable {change : ClassTable → ClassTable}
    (after : (change machine.registry.toClassTable).Closed)
    (grows : machine.registry.GrowsTo (change machine.registry.toClassTable)) :
    machine.Stays (machine.modifyTable change) := by
  refine closed.stays_registry ⟨after, ?_⟩ grows
  exact fun key target held => grows.hasMethod (closed.registry.selected key target held)

theorem calm_modifyTable {change : ClassTable → ClassTable}
    (after : (change machine.registry.toClassTable).Closed)
    (grows : machine.registry.GrowsTo (change machine.registry.toClassTable))
    (rests : machine.registry.toClassTable.Rests (change machine.registry.toClassTable)) :
    machine.Calm (machine.modifyTable change) :=
  ⟨closed.stays_modifyTable after grows, Registry.rests_of_table grows rests⟩

/-- A change of a class that leaves alone what the class is known by. -/
theorem stays_modifyClass (id : ClassId) {change : Class → Class}
    (same : ∀ cls : Class, cls.SameShape (change cls))
    (pool : ∀ cls : Class, (change cls).pool = cls.pool) :
    machine.Stays (machine.modifyClass id change) :=
  closed.stays_modifyTable (closed.registry.table.modify_of_pool_eq id (same _) (pool _))
    (ClassTable.growsTo_modify id (same _))

theorem calm_modifyClass (id : ClassId) {change : Class → Class}
    (same : ∀ cls : Class, cls.SameShape (change cls))
    (pool : ∀ cls : Class, (change cls).pool = cls.pool)
    (rests : ∀ cls : Class, cls.Rests (change cls)) :
    machine.Calm (machine.modifyClass id change) :=
  closed.calm_modifyTable (closed.registry.table.modify_of_pool_eq id (same _) (pool _))
    (ClassTable.growsTo_modify id (same _)) (ClassTable.rests_modify id rests pool)

/-- A change of what a method runs. -/
theorem calm_modifyMethod (id : MethodId) {change : Method → Method}
    (same : ∀ method : Method, (change method).bodiless = method.bodiless) :
    machine.Calm (machine.modifyTable fun table => table.modifyMethod id change) :=
  closed.calm_modifyClass id.owner (fun _ => .of_modify id.index.toNat same) (fun _ => rfl)
    fun _ => ⟨rfl, rfl, rfl, Array.size_modify, fun prepared => prepared⟩

theorem calm_mirror (id : ClassId) (ref : Ref) :
    machine.Calm (machine.modifyClass id fun cls => { cls with mirror := some ref }) :=
  closed.calm_modifyClass id (fun _ => ⟨rfl, rfl, rfl, rfl, rfl⟩) (fun _ => rfl)
    fun _ => ⟨rfl, rfl, rfl, rfl, fun prepared => prepared⟩

theorem calm_intern (text : String) (ref : Ref) : machine.Calm (machine.intern text ref) where
  toStays :=
    ⟨.refl _, ⟨closed.registry, closed.known, closed.heap.setSticky ref⟩, .refl _, rfl, rfl, rfl⟩
  rests := .refl _

theorem calm_write (descriptor : Int32) (text : String) :
    machine.Calm (machine.write descriptor text) := by
  rw [write]
  split <;> exact
    ⟨⟨.refl _, ⟨closed.registry, closed.known, closed.heap⟩, .refl _, rfl, rfl, rfl⟩, .refl _⟩

theorem calm_collectGarbage : machine.Calm machine.collectGarbage.2 :=
  closed.calm_heap (closed.heap.collect _ _)

/-! ### Locks -/

theorem calm_setMonitor (monitor : Monitor) (lock : Lock) :
    machine.Calm (machine.setMonitor monitor lock) := by
  cases lock with
  | object ref =>
      rw [setMonitor]
      apply closed.calm_modifyHeap
      exact closed.heap.modify ref fun _ => rfl
  | cls id =>
      exact closed.calm_modifyClass id (fun _ => ⟨rfl, rfl, rfl, rfl, rfl⟩) (fun _ => rfl)
        fun _ => ⟨rfl, rfl, rfl, rfl, fun prepared => prepared⟩

theorem calm_enterLock (lock : Lock) : machine.Calm (machine.enterLock lock).2 := by
  rw [enterLock]
  split
  · exact closed.calm_refl
  · split
    · exact closed.calm_setMonitor _ lock
    · exact closed.calm_refl

theorem calm_exitLock (lock : Lock) : machine.Calm (machine.exitLock lock).2 := by
  rw [exitLock]
  split
  · exact closed.calm_setMonitor _ lock
  · exact closed.calm_refl

theorem calm_releaseLocks (exec : ExecId) : machine.Calm (machine.releaseLocks exec) := by
  let change (cls : Class) : Class :=
    if cls.monitor.heldBy exec then { cls with monitor := Monitor.free } else cls
  have same : ∀ cls : Class, cls.SameShape (change cls) := by
    intro cls
    simp only [change]
    split <;> exact ⟨rfl, rfl, rfl, rfl, rfl⟩
  have pool : ∀ cls : Class, (change cls).pool = cls.pool := by
    intro cls
    simp only [change]
    split <;> rfl
  have rests : ∀ cls : Class, cls.Rests (change cls) := by
    intro cls
    simp only [change]
    split <;> exact ⟨rfl, rfl, rfl, rfl, fun prepared => prepared⟩
  have heap := closed.calm_heap (closed.heap.releaseMonitors exec)
  exact heap.trans (heap.closed.calm_modifyTable (heap.closed.registry.table.map same pool)
    (ClassTable.growsTo_map same) (ClassTable.rests_map rests pool))

/-! ### Initialization -/

/-- The end of an initializer changes the states of classes only. -/
theorem stays_finishInitialization (id : ClassId) (succeeded : Bool) :
    machine.Stays (machine.modifyTable fun table => table.finishInitialization id succeeded) := by
  have links : machine.registry.LinksTo
      (machine.registry.finishInitialization id succeeded) := by
    apply ClassTable.finishInitialization_induct (Linking.linksTo_refl closed.registry.table)
    intro table other links
    have next : table.LinksTo (table.modify other fun cls =>
        { cls with initState := ClassTable.endState succeeded }) :=
      ⟨ClassTable.growsTo_modify other ⟨rfl, rfl, rfl, rfl, rfl⟩,
        links.closed.modify_of_pool_eq other ⟨rfl, rfl, rfl, rfl, rfl⟩ rfl⟩
    exact Trans.trans links next
  exact closed.stays_modifyTable links.closed links.grows

theorem stays_leaveInitializer (id : MethodId) (succeeded : Bool) :
    machine.Stays (machine.leaveInitializer id succeeded) := by
  rw [leaveInitializer]
  split
  · exact closed.stays_finishInitialization id.owner succeeded
  · exact closed.stays_refl

theorem stays_setState (id : ClassId) (state : InitState) :
    machine.Stays (machine.modifyClass id fun cls => { cls with initState := state }) :=
  closed.stays_modifyClass id (fun _ => ⟨rfl, rfl, rfl, rfl, rfl⟩) fun _ => rfl

end Closed

end Machine

end Jvm
