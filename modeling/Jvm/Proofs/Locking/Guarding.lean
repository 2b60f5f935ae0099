import Jvm.Proofs.Changing.Slices
import Jvm.Proofs.Machine.Locks
import Jvm.Proofs.Machine.FrameChain

/-!
# Class locks guard frames

The lock of a linked class is there for good, and so is that of its class object, which is
never collected. An execution holds the lock of a class at least as often as it has frames
of static synchronized methods of the class. A step on behalf of the running execution keeps
this for all executions if it keeps it for that one and heeds what the others hold.
-/

namespace Jvm

/-- Whether a lock is that of a linked class or of its class object. -/
def Lock.Lasts (machine : Machine) : Lock → Prop
  | .object ref => ∃ id, machine.registry.Has id ∧ (machine.cls id).mirror = some ref
  | .cls id => machine.registry.Has id

theorem Lock.Lasts.linked {machine : Machine} {lock : Lock} (lasts : lock.Lasts machine) :
    lock.Linked machine.registry.toClassTable := by
  cases lock with
  | object ref => trivial
  | cls id => exact lasts

/-- Classes that are not there have the monitor of new ones. -/
theorem ClassTable.Prefixes.monitor_get {before after : ClassTable}
    (prefixes : before.Prefixes after) (id : ClassId) :
    (after.get id).monitor = (before.get id).monitor := by
  have free : ∀ {table : ClassTable}, ¬table.Has id → (table.get id).monitor = Monitor.free := by
    intro table unknown
    rw [get, Array.getD_eq_getD_getElem?, Array.getElem?_eq_none (Nat.le_of_not_lt unknown)]
    rfl
  by_cases known : before.Has id
  · rw [prefixes.classes id known]
  · rw [free known]
    by_cases linked : after.Has id
    · exact (prefixes.fresh id linked known).1.monitor
    · exact free linked

namespace Machine

/-- Where neither frames nor locks are touched. -/
def Scope.quiet : Scope := ⟨False, fun _ => False⟩

/-- Where frames are touched, but no locks. -/
def Scope.unlocked : Scope := ⟨True, fun _ => False⟩

variable {scope : Scope} {before after : Machine}

namespace SameFrames

variable {first second third : Machine}

theorem refl (machine : Machine) : machine.SameFrames machine := ⟨⟨rfl, rfl, rfl⟩, rfl⟩

theorem trans (left : first.SameFrames second) (right : second.SameFrames third) :
    first.SameFrames third where
  exec := ⟨right.exec.id.trans left.exec.id, right.exec.method.trans left.exec.method,
    right.exec.startSp.trans left.exec.startSp⟩
  parked := right.parked.trans left.parked

end SameFrames

/-- The object of a lock that lasts is named, so that it is not collected. -/
theorem names_of_lasts {ref : Ref} (lasts : (Lock.object ref).Lasts before) : before.Names ref := by
  obtain ⟨id, known, held⟩ := lasts
  have inside : before.cls id = before.registry.classes[id.index] := by
    rw [cls, ClassTable.get, Array.getD_eq_getD_getElem?, Array.getElem?_eq_getElem known,
      Option.getD_some]
  exact .cls (inside ▸ Array.getElem_mem known) (.mirror held)

namespace Change

variable (change : Change scope before after)

include change

theorem sameFrames (fixed : ¬scope.frames) : before.SameFrames after := by
  cases change with
  | aside frames => exact frames
  | frames allowed => exact (fixed allowed).elim
  | @lock lock => cases lock <;> exact ⟨⟨rfl, rfl, rfl⟩, rfl⟩
  | _ => exact ⟨⟨rfl, rfl, rfl⟩, rfl⟩

theorem lasts (proper : before.Proper) {lock : Lock} (lasts : lock.Lasts before) :
    lock.Lasts after := by
  have resembles := (change.caches proper).classes
  cases lock with
  | object ref =>
      obtain ⟨id, known, held⟩ := lasts
      exact ⟨id, resembles.has known, (resembles.classes id known).mirror ref held⟩
  | cls id => exact resembles.has lasts

omit change in
/-- An object that is not collected keeps its monitor. -/
theorem monitor?_object {ref : Ref} (change : Change scope before after) (proper : before.Proper)
    (named : before.Names ref) (fixed : ¬scope.locks (.object ref)) {monitor : Monitor}
    (found : before.monitor? (.object ref) = some monitor) :
    after.monitor? (.object ref) = some monitor := by
  obtain ⟨object, live, same⟩ := Option.map_eq_some_iff.mp found
  cases change with
  | aside _ _ heap | frames _ _ heap =>
      rw [Machine.monitor?, heap]
      exact found
  | write writes => exact (writes.monitor_get? ref).trans found
  | insert =>
      exact Option.map_eq_some_iff.mpr
        ⟨object, Heap.get?_insert_of_live proper.accounted live _, same⟩
  | collect =>
      exact Option.map_eq_some_iff.mpr
        ⟨object, (get?_collectGarbage_of_names proper.accounted.unmarked named).trans live, same⟩
  | intern other => exact ((Heap.Writes.setSticky before.heap other).monitor_get? ref).trans found
  | @lock lock allowed changed =>
      have differs : lock ≠ .object ref := fun same => fixed (same ▸ allowed)
      exact (before.monitor?_setMonitor_of_ne differs changed).trans found
  | release allowed => exact (fixed (allowed _)).elim
  | _ => exact found

/-- The monitor of a class that is linked meanwhile is free, as that of no class is. -/
theorem monitor_cls {id : ClassId} (fixed : ¬scope.locks (.cls id)) :
    (after.cls id).monitor = (before.cls id).monitor := by
  cases change with
  | aside _ registry | frames _ registry => rw [cls, registry, cls]
  | @link registry prefixes => exact prefixes.monitor_get id
  | classes _ monitors => exact monitors id
  | @resolve owner =>
      exact before.registry.view_modify owner id _ Class.monitor fun _ => rfl
  | @lock lock allowed changed =>
      have differs : lock ≠ .cls id := fun same => fixed (same ▸ allowed)
      exact Option.some.inj (before.monitor?_setMonitor_of_ne differs changed)
  | release allowed => exact (fixed (allowed _)).elim
  | _ => rfl

theorem monitor? (proper : before.Proper) {lock : Lock} (lasts : lock.Lasts before)
    (fixed : ¬scope.locks lock) {monitor : Monitor} (found : before.monitor? lock = some monitor) :
    after.monitor? lock = some monitor := by
  cases lock with
  | object ref => exact monitor?_object change proper (names_of_lasts lasts) fixed found
  | cls id => exact (congrArg some (change.monitor_cls fixed)).trans found

end Change

namespace ChangesIn

variable (changes : ChangesIn scope before after)

include changes

theorem sameFrames (fixed : ¬scope.frames) : before.SameFrames after := by
  induction changes with
  | refl => exact .refl _
  | tail _ change ih => exact ih.trans (change.sameFrames fixed)

theorem lasts (proper : before.Proper) {lock : Lock} (lasts : lock.Lasts before) :
    lock.Lasts after := by
  induction changes with
  | refl => exact lasts
  | tail changes change ih => exact change.lasts (ChangesIn.proper changes proper) ih

theorem monitor_cls {id : ClassId} (fixed : ¬scope.locks (.cls id)) :
    (after.cls id).monitor = (before.cls id).monitor := by
  induction changes with
  | refl => rfl
  | tail _ change ih => exact (change.monitor_cls fixed).trans ih

/-- A lock that lasts is held as it was, if it is not in the scope. -/
theorem monitor? (proper : before.Proper) {lock : Lock} (lasts : lock.Lasts before)
    (fixed : ¬scope.locks lock) {monitor : Monitor} (found : before.monitor? lock = some monitor) :
    after.monitor? lock = some monitor := by
  induction changes with
  | refl => exact found
  | tail changes change ih =>
      exact change.monitor? (ChangesIn.proper changes proper)
        (ChangesIn.lasts changes proper lasts) fixed ih

end ChangesIn

end Machine

/-! ## How often a monitor is held -/

namespace Monitor

/-- How often an execution has taken a monitor. -/
def depth (monitor : Monitor) (exec : ExecId) : Nat :=
  if monitor.heldBy exec then monitor.count.toNat else 0

variable {monitor next : Monitor} {exec other : ExecId}

theorem heldBy_iff : monitor.heldBy exec = true ↔ monitor.count ≠ 0 ∧ monitor.owner = exec := by
  simp [heldBy]

theorem heldBy_of_depth_pos (deep : 0 < monitor.depth exec) : monitor.heldBy exec = true := by
  by_contra strange
  rw [depth, if_neg strange] at deep
  exact Nat.lt_irrefl 0 deep

/-- Nobody else holds a monitor that an execution holds. -/
theorem eq_of_heldBy (held : monitor.heldBy exec = true) (held' : monitor.heldBy other = true) :
    exec = other :=
  (heldBy_iff.mp held).2.symm.trans (heldBy_iff.mp held').2

/-- Who enters a monitor holds it once more, unless its count is full. -/
theorem depth_of_enter (enters : monitor.enter exec = some next) (room : monitor.count + 1 ≠ 0) :
    next.depth exec = monitor.depth exec + 1 := by
  rw [enter] at enters
  split at enters
  next admitted =>
      cases enters
      have more : (monitor.count + 1).toNat = monitor.count.toNat + 1 := by
        have full : monitor.count.toNat + 1 < UInt32.size := by
          have below := monitor.count.toNat_lt
          refine Nat.lt_of_le_of_ne below fun same => room ?_
          rw [← UInt32.toNat_inj, UInt32.toNat_add]
          change (monitor.count.toNat + 1) % UInt32.size = 0
          rw [same, Nat.mod_self]
        rw [UInt32.toNat_add, show (1 : UInt32).toNat = 1 from rfl]
        exact Nat.mod_eq_of_lt full
      rw [depth, if_pos (heldBy_iff.mpr ⟨room, rfl⟩), more, depth]
      split
      next => rfl
      next strange =>
          have free : monitor.count = 0 := by
            by_contra taken
            exact strange (heldBy_iff.mpr ⟨taken, admitted.resolve_left taken⟩)
          rw [free]
          rfl
  next => cases enters

/-- Who leaves a monitor holds it once less. -/
theorem depth_of_exit (exits : monitor.exit exec = some next) :
    monitor.depth exec = next.depth exec + 1 := by
  have held : monitor.heldBy exec = true := by
    rw [← exit_isSome_iff, exits]
    rfl
  obtain ⟨taken, own⟩ := heldBy_iff.mp held
  rw [exit, if_neg (not_or.mpr ⟨taken, not_not_intro own⟩)] at exits
  rw [depth, if_pos held]
  split at exits
  next once =>
      cases exits
      rw [once]
      rfl
  next nested =>
      cases exits
      have left : (monitor.count - 1).toNat + 1 = monitor.count.toNat := by
        have positive : 1 ≤ monitor.count.toNat :=
          Nat.one_le_iff_ne_zero.mpr fun zero => taken (UInt32.toNat_inj.mp zero)
        rw [UInt32.toNat_sub_of_le _ _ positive]
        exact Nat.sub_add_cancel positive
      have more : monitor.count - 1 ≠ 0 := by
        intro zero
        rw [zero] at left
        exact nested (UInt32.toNat_inj.mp left.symm)
      have still : (⟨monitor.owner, monitor.count - 1⟩ : Monitor).heldBy exec = true :=
        heldBy_iff.mpr ⟨more, own⟩
      exact left.symm.trans (congrArg (· + 1) (if_pos still).symm)

/-- A monitor that another execution holds is not entered. -/
theorem enter_of_strange (held : monitor.heldBy other = true) (differs : other ≠ exec) :
    monitor.enter exec = none := by
  obtain ⟨taken, own⟩ := heldBy_iff.mp held
  exact (enter_eq_none_iff _ _).mpr ⟨taken, own ▸ differs⟩

/-- A monitor that another execution holds is not left. -/
theorem exit_of_strange (held : monitor.heldBy other = true) (differs : other ≠ exec) :
    monitor.exit exec = none := by
  rw [← Option.not_isSome_iff_eq_none, exit_isSome_iff]
  exact fun own => differs (eq_of_heldBy held own)

end Monitor

/-! ## Frames that stand -/

namespace Stack.Chains

variable {stack : Stack} {table : ClassTable} {startSp : Nat} {saved : List SavedFrame}

/-- The innermost frame of a chain starts where the chain starts. -/
theorem exists_eq_cons (chains : stack.Chains table startSp saved) :
    ∃ context callers, saved = (startSp, context) :: callers := by
  cases chains with
  | host => exact ⟨_, _, rfl⟩
  | caller => exact ⟨_, _, rfl⟩

/-- The callers of the innermost frame start below it. -/
theorem lt_of_mem_tail {context : FrameContext} {callers : List SavedFrame}
    (chains : stack.Chains table startSp ((startSp, context) :: callers)) {frame : SavedFrame}
    (member : frame ∈ callers) : frame.1 < startSp := by
  cases chains with
  | host => cases member
  | caller called linked below inner =>
      exact Nat.lt_of_le_of_lt (inner.le_of_mem member)
        (Nat.lt_of_lt_of_le (Nat.lt_add_of_pos_right (by decide)) below)

/-- A chain has no end that starts where it starts. -/
theorem eq_of_suffix (chains : stack.Chains table startSp saved) {stack' : Stack}
    {table' : ClassTable} {saved' : List SavedFrame}
    (chains' : stack'.Chains table' startSp saved') (suffix : saved <:+ saved') :
    saved' = saved := by
  obtain ⟨context, callers, rfl⟩ := chains.exists_eq_cons
  obtain ⟨context', callers', rfl⟩ := chains'.exists_eq_cons
  rcases List.suffix_cons_iff.mp suffix with same | among
  · exact same.symm
  · have below := chains'.lt_of_mem_tail (among.subset List.mem_cons_self)
    exact (Nat.lt_irrefl _ below).elim

end Stack.Chains

namespace Execution.Stands

variable {exec after : Execution} {table : ClassTable} {saved : List SavedFrame}
  (stands : exec.Stands table saved)

include stands

/-- The methods of frames that stand are linked. -/
theorem hasMethod_of_mem {method : MethodId} (member : method ∈ exec.methods) :
    table.HasMethod method := by
  rw [stands.methods_eq, List.mem_append, Option.mem_toList, List.mem_filterMap] at member
  rcases member with current | ⟨frame, found, called⟩
  · exact stands.linked method current
  · cases busy : exec.method with
    | none =>
        rw [(stands.idle busy).1] at found
        cases found
    | some current => exact (stands.chains current busy).hasMethod found called

/-- The frames of an execution that is where it was are those from before, if none of them
came between. -/
theorem saved_eq_of_remains {table' : ClassTable} {saved' : List SavedFrame}
    (stands' : after.Stands table' saved') (remains : exec.Remains after)
    (suffix : saved <:+ saved' ∨ saved' <:+ saved) : saved' = saved := by
  cases busy : exec.method with
  | none =>
      rw [(stands.idle busy).1, (stands'.idle (remains.method.trans busy)).1]
  | some current =>
      have chains := stands.chains current busy
      have chains' := stands'.chains current (remains.method.trans busy)
      rw [remains.startSp] at chains'
      rcases suffix with suffix | suffix
      · exact chains.eq_of_suffix chains' suffix
      · exact (chains'.eq_of_suffix chains suffix).symm

end Execution.Stands

/-! ## Methods under class locks -/

namespace ClassTable

/-- Whether calls of a method take the lock of a class. -/
def takesLock (table : ClassTable) (id : ClassId) (method : MethodId) : Bool :=
  (table.method method).isSynchronized && (table.method method).isStatic && method.owner == id

/-- Whether class initializers, which no call runs, are not to take a lock. -/
def Unlocked (table : ClassTable) : Prop :=
  ∀ id method, table.Has id → (table.get id).initializer? = some method →
    (table.method method).isSynchronized = false

variable {before after : ClassTable}

theorem GrowsTo.flags_method (grows : before.GrowsTo after) {method : MethodId}
    (known : before.Has method.owner) :
    (after.method method).flags = (before.method method).flags := by
  have same := congrArg Method.flags (grows.bodiless_method known)
  exact same

theorem GrowsTo.takesLock (grows : before.GrowsTo after) {method : MethodId}
    (known : before.Has method.owner) (id : ClassId) :
    after.takesLock id method = before.takesLock id method := by
  simp only [ClassTable.takesLock, Method.isSynchronized, Method.isStatic,
    grows.flags_method known]

theorem Unlocked.of_growsTo (unlocked : after.Unlocked) (closedBefore : before.Closed)
    (closedAfter : after.Closed) (grows : before.GrowsTo after) : before.Unlocked := by
  intro id method known found
  have later := grows.declaredMethod? closedBefore closedAfter known "<clinit>" "()V"
  have linked := hasMethod_of_initializer? closedBefore known found
  have free := unlocked id method (grows.has known) (later.trans found)
  rw [Method.isSynchronized, grows.flags_method linked.1] at free
  exact free

/-- A method that takes the lock of a class is the class's own. -/
theorem owner_of_takesLock {table : ClassTable} {id : ClassId} {method : MethodId}
    (takes : table.takesLock id method = true) : method.owner = id := by
  simp only [takesLock, Bool.and_eq_true, beq_iff_eq] at takes
  exact takes.2

theorem countP_takesLock (grows : before.GrowsTo after) {methods : List MethodId}
    (linked : ∀ method ∈ methods, before.Has method.owner) (id : ClassId) :
    methods.countP (after.takesLock id) = methods.countP (before.takesLock id) :=
  List.countP_congr fun method member => by rw [grows.takesLock (linked method member)]

end ClassTable

namespace Machine

/-- How many frames of an execution are under the lock of a class. -/
def nesting (machine : Machine) (exec : Execution) (id : ClassId) : Nat :=
  exec.methods.countP (machine.registry.takesLock id)

/-- Whether the running execution holds the locks of classes as often as some of its calls
are under them, at least. -/
def Covers (machine : Machine) (calls : List MethodId) : Prop :=
  ∀ id, calls.countP (machine.registry.takesLock id) ≤
    (machine.cls id).monitor.depth machine.exec.id

theorem lockOf?_eq_cls_iff (machine : Machine) (method : MethodId) (receiver : Option Ref)
    (id : ClassId) :
    machine.lockOf? method receiver = some (.cls id) ↔
      machine.registry.takesLock id method = true := by
  simp only [lockOf?, ClassTable.takesLock]
  change (if (!(machine.method method).isSynchronized) = true then none
    else if (machine.method method).isStatic = true then some (Lock.cls method.owner)
    else receiver.map Lock.object) = some (Lock.cls id) ↔
      ((machine.method method).isSynchronized && (machine.method method).isStatic &&
        method.owner == id) = true
  cases (machine.method method).isSynchronized <;> cases (machine.method method).isStatic <;>
    simp

/-- Whether every execution holds the locks of classes as often as it has frames under them,
at least. -/
structure Guarded (machine : Machine) : Prop where
  sound : machine.Sound
  accounted : machine.heap.Accounted
  distinct : (machine.executions.map (·.id)).Nodup
  held : machine.registry.Fit → machine.registry.Unlocked → ∀ exec ∈ machine.executions, ∀ id,
    machine.nesting exec id ≤ (machine.cls id).monitor.depth exec.id

namespace Guarded

variable {machine : Machine} (guarded : machine.Guarded)

include guarded

theorem closed : machine.Closed := guarded.sound.closed

theorem proper : machine.Proper := ⟨guarded.closed.registry.table, guarded.accounted⟩

theorem covers (fit : machine.registry.Fit) (unlocked : machine.registry.Unlocked) :
    machine.Covers machine.exec.methods :=
  guarded.held fit unlocked machine.exec (.head _)

theorem stands (fit : machine.registry.Fit) :
    machine.exec.Stands machine.registry.toClassTable machine.exec.saved :=
  guarded.sound.stands fit machine.exec (.head _)

end Guarded

/-- Whether the locks that last and that an execution holds stay held as they are. -/
def Spares (before after : Machine) (id : ExecId) : Prop :=
  ∀ lock monitor, lock.Lasts before → before.monitor? lock = some monitor →
    monitor.heldBy id = true → after.monitor? lock = some monitor

/-- Whether a step on behalf of the running execution has left the others what they hold,
and all class locks held as often as frames are under them. -/
structure Heeds (before after : Machine) : Prop where
  grows : before.registry.GrowsTo after.registry.toClassTable
  guarded : after.Guarded
  id : after.exec.id = before.exec.id
  waits : ∀ exec ∈ before.parked, ∃ other ∈ after.parked, other.id = exec.id
  lasts : ∀ lock : Lock, lock.Lasts before → lock.Lasts after
  spares : ∀ exec ∈ before.parked, before.Spares after exec.id

/-- Whether a step has left the running execution its own locks and frames, besides. -/
structure Minds (before after : Machine) : Prop extends Heeds before after where
  own : before.Spares after before.exec.id
  methods : after.registry.Fit → after.exec.methods = before.exec.methods

/-- Whether a step has left the locks of all classes and the other executions alone, besides. -/
structure Idles (before after : Machine) : Prop extends Minds before after where
  monitors : ∀ id, (after.cls id).monitor = (before.cls id).monitor
  parked : after.parked = before.parked
  next : after.nextExec = before.nextExec

section

variable {first second third : Machine} {id : ExecId}

theorem Spares.refl (machine : Machine) (id : ExecId) : machine.Spares machine id :=
  fun _ _ _ found _ => found

theorem Spares.trans (left : first.Spares second id) (right : second.Spares third id)
    (lasts : ∀ lock : Lock, lock.Lasts first → lock.Lasts second) : first.Spares third id :=
  fun lock monitor there found held =>
    right lock monitor (lasts lock there) (left lock monitor there found held) held

theorem Heeds.trans (left : first.Heeds second) (right : second.Heeds third) :
    first.Heeds third where
  grows := left.grows.trans right.grows
  guarded := right.guarded
  id := right.id.trans left.id
  waits exec member := by
    obtain ⟨middle, waits, same⟩ := left.waits exec member
    obtain ⟨other, waits', same'⟩ := right.waits middle waits
    exact ⟨other, waits', same'.trans same⟩
  lasts lock there := right.lasts lock (left.lasts lock there)
  spares exec member := by
    obtain ⟨middle, waits, same⟩ := left.waits exec member
    exact (left.spares exec member).trans (same ▸ right.spares middle waits) left.lasts

theorem Minds.trans (left : first.Minds second) (right : second.Minds third) :
    first.Minds third where
  toHeeds := left.toHeeds.trans right.toHeeds
  own := left.own.trans (left.id ▸ right.own) left.lasts
  methods fit := by
    have fitBetween := fit_of_growsTo left.guarded.closed right.guarded.closed right.grows fit
    exact (right.methods fit).trans (left.methods fitBetween)

theorem Idles.trans (left : first.Idles second) (right : second.Idles third) :
    first.Idles third where
  toMinds := left.toMinds.trans right.toMinds
  monitors id := (right.monitors id).trans (left.monitors id)
  parked := right.parked.trans left.parked
  next := right.next.trans left.next

theorem Guarded.idles_refl (guarded : first.Guarded) : first.Idles first where
  grows := .refl _
  guarded := guarded
  id := rfl
  waits exec member := ⟨exec, member, rfl⟩
  lasts _ there := there
  spares _ _ := .refl _ _
  own := .refl _ _
  methods _ := rfl
  monitors _ := rfl
  parked := rfl
  next := rfl

theorem Guarded.heeds_refl (guarded : first.Guarded) : first.Heeds first := guarded.idles_refl.toHeeds

end

instance : Trans Heeds Heeds Heeds := ⟨Heeds.trans⟩

instance : Trans Minds Minds Minds := ⟨Minds.trans⟩

instance : Trans Idles Heeds Heeds := ⟨fun idles heeds => idles.toHeeds.trans heeds⟩

instance : Trans Idles Minds Minds := ⟨fun idles minds => idles.toMinds.trans minds⟩

/-! ## Steps that heed locks -/

section

variable {before after : Machine}

/-- Frames that stand are under the same locks when classes have been added. -/
theorem nesting_of_growsTo {exec : Execution} {saved : List SavedFrame}
    (stands : exec.Stands before.registry.toClassTable saved)
    (grows : before.registry.GrowsTo after.registry.toClassTable) (id : ClassId) :
    after.nesting exec id = before.nesting exec id :=
  ClassTable.countP_takesLock grows (fun _ member => (stands.hasMethod_of_mem member).1) id

/-- No linked method is under the lock of a class that is not linked. -/
theorem countP_of_unknown {calls : List MethodId}
    (linked : ∀ call ∈ calls, before.registry.Has call.owner) {id : ClassId}
    (unknown : ¬before.registry.Has id) : calls.countP (before.registry.takesLock id) = 0 := by
  refine List.countP_eq_zero.mpr fun method member takes => unknown ?_
  rw [← ClassTable.owner_of_takesLock takes]
  exact linked method member

/-- Who keeps its locks holds them as often as before. -/
theorem depth_of_spares {exec : ExecId} {calls : List MethodId}
    (linked : ∀ call ∈ calls, before.registry.Has call.owner) (spares : before.Spares after exec)
    (id : ClassId) (bounded : calls.countP (before.registry.takesLock id) ≤
      (before.cls id).monitor.depth exec) :
    calls.countP (before.registry.takesLock id) ≤ (after.cls id).monitor.depth exec := by
  by_cases known : before.registry.Has id
  · rcases Nat.eq_zero_or_pos ((before.cls id).monitor.depth exec) with none | deep
    · exact (bounded.trans_eq none).trans (Nat.zero_le _)
    · have kept := spares (.cls id) _ known rfl (Monitor.heldBy_of_depth_pos deep)
      rw [Option.some.inj kept]
      exact bounded
  · rw [countP_of_unknown linked known]
    exact Nat.zero_le _

/-- What covers calls covers them still while the running execution keeps its locks. -/
theorem Covers.of_spares {calls : List MethodId} (covers : before.Covers calls)
    (linked : ∀ call ∈ calls, before.registry.Has call.owner)
    (grows : before.registry.GrowsTo after.registry.toClassTable)
    (same : after.exec.id = before.exec.id) (spares : before.Spares after before.exec.id) :
    after.Covers calls := by
  intro id
  rw [ClassTable.countP_takesLock grows linked, same]
  exact depth_of_spares linked spares id (covers id)

namespace Guarded

variable (guarded : before.Guarded)

include guarded

theorem fits (sound : after.Sound)
    (grows : before.registry.GrowsTo after.registry.toClassTable) (fit : after.registry.Fit)
    (unlocked : after.registry.Unlocked) : before.registry.Fit ∧ before.registry.Unlocked :=
  ⟨fit_of_growsTo guarded.closed sound.closed grows fit,
    unlocked.of_growsTo guarded.closed.registry.table sound.closed.registry.table grows⟩

theorem linked (fit : before.registry.Fit) {exec : Execution} (member : exec ∈ before.executions) :
    ∀ call ∈ exec.methods, before.registry.Has call.owner :=
  fun _ called => ((guarded.sound.stands fit exec member).hasMethod_of_mem called).1

/-- Executions that keep their locks hold them as often as they have frames under them. -/
theorem held_of_spares (sound : after.Sound)
    (grows : before.registry.GrowsTo after.registry.toClassTable) (fit : after.registry.Fit)
    (unlocked : after.registry.Unlocked) {exec : Execution} (member : exec ∈ before.executions)
    (spares : before.Spares after exec.id) (id : ClassId) :
    after.nesting exec id ≤ (after.cls id).monitor.depth exec.id := by
  obtain ⟨fitBefore, unlockedBefore⟩ := guarded.fits sound grows fit unlocked
  rw [nesting_of_growsTo (guarded.sound.stands fitBefore exec member) grows]
  exact depth_of_spares (guarded.linked fitBefore member) spares id
    (guarded.held fitBefore unlockedBefore exec member id)

/-- A step heeds locks if it spares those of others, and the running execution has taken
those of its own frames. -/
theorem heeds {scope : Scope} (changes : ChangesIn scope before after)
    (grows : before.registry.GrowsTo after.registry.toClassTable) (sound : after.Sound)
    (same : after.exec.id = before.exec.id)
    (parked : after.parked = before.parked)
    (spares : ∀ id, id ≠ before.exec.id → before.Spares after id)
    (covers : after.registry.Fit → after.registry.Unlocked → after.Covers after.exec.methods) :
    before.Heeds after := by
  have ids : after.executions.map (·.id) = before.executions.map (·.id) := by
    rw [executions, executions, List.map_cons, List.map_cons, same, parked]
  have strange : ∀ exec ∈ before.parked, exec.id ≠ before.exec.id := by
    intro exec member equal
    have apart : before.exec.id ∉ before.parked.map (·.id) :=
      (List.nodup_cons.mp guarded.distinct).1
    exact apart (List.mem_map.mpr ⟨exec, member, equal⟩)
  have spared : ∀ exec ∈ before.parked, before.Spares after exec.id :=
    fun exec member => spares exec.id (strange exec member)
  refine ⟨grows, ⟨sound, (changes.proper guarded.proper).accounted, ?_, ?_⟩, same, ?_, ?_, spared⟩
  · rw [ids]
    exact guarded.distinct
  · intro fit unlocked exec member
    rcases List.mem_cons.mp member with rfl | waits
    · exact covers fit unlocked
    · rw [parked] at waits
      exact guarded.held_of_spares sound grows fit unlocked (.tail _ waits) (spared exec waits)
  · exact fun exec member => ⟨exec, parked ▸ member, rfl⟩
  · exact fun _ => changes.lasts guarded.proper

/-- A step that touches no lock spares those of all executions. -/
theorem spares_of_changes {scope : Scope} (changes : ChangesIn scope before after)
    (fixed : ∀ lock, ¬scope.locks lock) (id : ExecId) : before.Spares after id :=
  fun lock _ there found _ => changes.monitor? guarded.proper there (fixed lock) found

end Guarded

end

end Machine

end Jvm
