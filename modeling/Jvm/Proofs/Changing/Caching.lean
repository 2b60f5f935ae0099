import Jvm.Machine.Start
import Jvm.Proofs.Changing.Slices
import Jvm.Proofs.Changing.Restoring
import Jvm.Proofs.Machine.Sound

/-!
# Resolution is remembered

What a constant was resolved to is what it resolves to from then on, whatever a machine is
asked to do, and what the constant that was there at first resolves to, if that is put back.
A machine does all that it is asked to do along changes, and starts out as changes need it.
-/

namespace Jvm

namespace Machine

/-! ## What a machine is asked to do -/

/-- What is done with a machine at a time: what a host asks for, an instruction, and the
resolution of a constant. -/
inductive Operation : {ε α : Type} → EStateM ε Machine α → Prop
  | invoke (bounds : Bounds) (method : MethodId) (arguments : List Value) :
      Operation (Host.invoke bounds method arguments)
  | invokeStatic (bounds : Bounds) (className name descriptor : String)
      (arguments : List Value) :
      Operation (Host.invokeStatic bounds className name descriptor arguments)
  | invokeVirtual (bounds : Bounds) (receiver : Ref) (name descriptor : String)
      (arguments : List Value) :
      Operation (Host.invokeVirtual bounds receiver name descriptor arguments)
  | invokeShared (bounds : Bounds) (className name descriptor : String)
      (arguments : List Value) :
      Operation (Host.invokeShared bounds className name descriptor arguments)
  | run (bounds : Bounds) (className : String) (arguments : List String) :
      Operation (Host.run bounds className arguments)
  | prepareExecution (bounds : Bounds) (className name descriptor : String)
      (arguments : List Value) :
      Operation (Host.prepareExecution bounds className name descriptor arguments)
  | slice (bounds : Bounds) (id : ExecId) : Operation (Host.slice bounds id)
  | drive (bounds : Bounds) (id : ExecId) (more : Nat) : Operation (Host.drive bounds id more)
  | joinThreads (bounds : Bounds) (fuel : Nat) :
      Operation (Host.joinThreads bounds.reentry fuel)
  | discardExecution (id : ExecId) :
      Operation (modify fun machine => machine.discardExecution id : Host PUnit)
  | load (name : String) : Operation (Host.load name)
  | defineClass (bytes : Array UInt8) : Operation (Host.defineClass bytes)
  | getStatic (bounds : Bounds) (className name : String) :
      Operation (Host.getStatic bounds className name)
  | registerNative (className name descriptor : String) (native : Native) :
      Operation (Host.registerNative className name descriptor native)
  | newString (text : String) : Operation (Host.newString text)
  | newIntArray (values : Array Int32) : Operation (Host.newIntArray values)
  | newStringArray (texts : List String) : Operation (Host.newStringArray texts)
  | pin (ref : Ref) : Operation (modify fun machine => machine.pin ref : Host PUnit)
  | unpin (ref : Ref) : Operation (modify fun machine => machine.unpin ref : Host PUnit)
  | collectGarbage : Operation (modifyGet Machine.collectGarbage : Host GcReport)
  | setBreakpoint (className name descriptor : String) (pc : UInt32) :
      Operation (Host.setBreakpoint className name descriptor pc)
  | setLineBreakpoint (className name descriptor : String) (line : UInt32) :
      Operation (Host.setLineBreakpoint className name descriptor line)
  | clearBreakpoint (id : MethodId) (pc : UInt32) :
      Operation (modifyGet fun machine => machine.clearBreakpoint id pc : Host Bool)
  | clearBreakpoints : Operation (modify Machine.clearBreakpoints : Host PUnit)
  /-- Consoles, the debugger and the end of a machine are no concern of its classes. -/
  | aside {change : Machine → Machine} (registry : ∀ machine, (change machine).registry = machine.registry)
      (heap : ∀ machine, (change machine).heap = machine.heap)
      (interned : ∀ machine, (change machine).interned = machine.interned) :
      Operation (modify change : Host PUnit)
  | step (bounds : Bounds) : Operation (Guest.step bounds.reentry)
  | resolve (target : ResolutionTarget) (owner : ClassId) (index : UInt16) :
      Operation (Guest.resolve target owner index)

/-- Whatever is done with a machine keeps objects in shape, but for what is put aside: that
could make the machine know other classes. -/
theorem Operation.paces_or_aside {ε α : Type} {step : EStateM ε Machine α}
    (operation : Operation step) :
    Paces step ∨ ∀ machine, ∃ value after, step machine = .ok value after ∧
      Counted .all machine after ∧ after.registry = machine.registry ∧
      after.heap = machine.heap := by
  cases operation with
  | invoke => exact .inl (Host.paces_invoke _ _ _)
  | invokeStatic => exact .inl (Host.paces_invokeStatic _ _ _ _ _)
  | invokeVirtual => exact .inl (Host.paces_invokeVirtual _ _ _ _ _)
  | invokeShared => exact .inl (Host.paces_invokeShared _ _ _ _ _)
  | run => exact .inl (Host.paces_run _ _ _)
  | prepareExecution => exact .inl (Host.paces_prepareExecution _ _ _ _ _)
  | slice => exact .inl (Host.paces_slice _ _)
  | drive => exact .inl (Host.paces_drive _ _ _)
  | joinThreads bounds => exact .inl (Host.paces_joinThreads bounds.paces_reentry _)
  | discardExecution id => exact .inl (.modify fun machine => Host.shapes_discardExecution machine id)
  | load => exact .inl (Host.paces_load _)
  | defineClass => exact .inl (Host.paces_defineClass _)
  | getStatic => exact .inl (Host.paces_getStatic _ _ _)
  | registerNative => exact .inl (Host.paces_registerNative _ _ _ _)
  | newString => exact .inl (Host.paces_newString _)
  | newIntArray => exact .inl (Host.paces_newIntArray _)
  | newStringArray => exact .inl (Host.paces_newStringArray _)
  | pin => exact .inl (.modify fun _ => shapes_modifyHeap (.pin _ _))
  | unpin => exact .inl (.modify fun _ => shapes_modifyHeap (.unpin _ _))
  | collectGarbage => exact .inl (.modifyGet fun _ => .single .collect)
  | setBreakpoint => exact .inl (Host.paces_setBreakpoint _ _ _ _)
  | setLineBreakpoint => exact .inl (Host.paces_setLineBreakpoint _ _ _ _)
  | clearBreakpoint id pc => exact .inl (.modifyGet fun machine => machine.shapes_clearBreakpoint id pc)
  | clearBreakpoints => exact .inl (.modify fun machine => machine.shapes_clearBreakpoints)
  | aside registry heap interned =>
      exact .inr fun machine => ⟨_, _, rfl,
        .frames trivial (registry machine) (heap machine) (interned machine),
        registry machine, heap machine⟩
  | step bounds => exact .inl (Guest.paces_step bounds.paces_reentry)
  | resolve => exact .inl (Guest.paces_resolve _ _ _)

/-- Whatever is done with a machine goes along counted changes. -/
theorem Operation.tallies {ε α : Type} {step : EStateM ε Machine α} (operation : Operation step) :
    TalliesIn .all step := by
  rcases operation.paces_or_aside with paces | aside
  · exact paces.tallies
  · intro machine
    obtain ⟨value, after, ran, counted, -⟩ := aside machine
    exact Ends.of_ok ran ⟨.single counted, trivial⟩

theorem Operation.walks {ε α : Type} {step : EStateM ε Machine α} (operation : Operation step) :
    Walks step :=
  operation.tallies.walks

/-! ## Starting -/

theorem proper_of_linked {config : Config} {path : ClassPath} {machine : Machine}
    (started : linked config path = .ok machine) : machine.Proper := by
  simp only [linked, Except.bind_eq_ok, pure, Except.pure, Except.ok.injEq] at started
  obtain ⟨core, -, wellKnown, -, rfl⟩ := started
  exact ⟨(Registry.links_core path).closed.table, Heap.accounted_of_empty rfl rfl rfl⟩

/-- A machine starts along changes that keep objects in shape, from one whose core classes are
linked. -/
theorem shapes_of_start {config : Config} {classes : ClassPath} {machine : Machine}
    (started : start config classes = .ok machine) :
    ∃ library before, Bootstrap.classPath.mapError Error.load = .ok library ∧
      linked config (library ++ classes) = .ok before ∧ Shapes before machine := by
  simp only [start, Except.bind_eq_ok] at started
  obtain ⟨library, assembled, before, linked, prepared⟩ := started
  refine ⟨library, before, assembled, linked, ?_⟩
  rw [prepareOutOfMemory] at prepared
  dsimp only at prepared
  split at prepared
  next ref made ran =>
      cases prepared
      have shapes : Shapes before made :=
        (Guest.paces_newThrowable ExceptionKind.outOfMemoryError.isArrayName_className _).ok ran
      have sticks : Shaped .all made (made.modifyHeap fun heap => heap.setSticky ref) :=
        .write (.setSticky made.heap ref)
      have notes : Shaped .all (made.modifyHeap fun heap => heap.setSticky ref)
          { made.modifyHeap fun heap => heap.setSticky ref with outOfMemory := some ref } :=
        .frames trivial rfl rfl rfl rfl
      exact (shapes.tail sticks).tail notes
  next => cases prepared
  next => cases prepared

theorem proper_of_start {config : Config} {classes : ClassPath} {machine : Machine}
    (started : start config classes = .ok machine) : machine.Proper := by
  obtain ⟨_, before, -, linked, shapes⟩ := shapes_of_start started
  exact shapes.changes.proper (proper_of_linked linked)

end Machine

namespace Guest

open Machine

/-! ## What is remembered -/

section

variable {origin before resolved later : Machine} {target : ResolutionTarget} {owner : ClassId}
  {index : UInt16} {constant : Constant} (proper : origin.Proper)
  (known : origin.registry.Has owner) (early : Changes origin before)
  (ran : resolve target owner index before = .ok constant resolved)
  (further : Changes resolved later)

include proper known early ran further

/-- What was resolved is returned from then on, and nothing more is done for it. -/
theorem resolve_again : resolve target owner index later = .ok constant later := by
  obtain ⟨answers, held⟩ := ends_of_ok ran (moves_resolve target owner index before).ends
  have reached : Changes origin resolved :=
    early.trans ((walks_resolve target owner index).ok ran)
  have keeps := (further.caches (reached.proper proper)).keeps ((reached.caches proper).classes.has known)
  refine resolve_of_held ?_ answers
  rw [← held]
  exact keeps index (held ▸ answers.not_isReference)

/-- A pool may hold what it held at first wherever something took its place. -/
theorem restores_of_origin {pool : ConstantPool}
    (mixed : ∀ place, pool.slot place = (origin.cls owner).pool.slot place ∨
      pool.slot place = (later.cls owner).pool.slot place) : later.Restores owner pool := by
  have changes : Changes origin later :=
    (early.trans ((walks_resolve target owner index).ok ran)).trans further
  intro place
  rcases mixed place with first | last
  · rw [first]
    rcases (changes.caches proper).slots owner known place with same | denotes
    · exact .inl same.symm
    · exact .inr denotes
  · exact .inl last

/-- The string that a constant was resolved to is kept. -/
theorem class?_resolved {ref : Ref} (string : constant = .resolvedString ref)
    (symbolic : ((origin.cls owner).pool.slot index).IsReference) {cls : ClassId}
    (live : resolved.heap.class? ref = some cls) : later.heap.class? ref = some cls := by
  subst string
  obtain ⟨answers, held⟩ := ends_of_ok ran (moves_resolve target owner index before).ends
  have reached : Changes origin resolved :=
    early.trans ((walks_resolve target owner index).ok ran)
  have holds : (resolved.registry.get owner).pool.slot index = .resolvedString ref := held
  rcases (reached.caches proper).slots owner known index with same | denotes
  · have first : (origin.cls owner).pool.slot index = .resolvedString ref := same.symm.trans holds
    rw [first] at symbolic
    exact symbolic.elim
  · rw [holds] at denotes
    obtain ⟨textIndex, text, -, -, canonical⟩ := denotes.exists_text
    exact further.class?_canonical (reached.proper proper) canonical live

/-- Resolution is remembered and cannot be told from resolution afresh. Whatever is done with
a machine that was started goes along changes, from machines whose linked ids and accounts of
the heap are right to such machines. When resolution has returned what a constant resolves to,
it returns that ever after, whatever changes: classes that are loaded, other constants that are
resolved, garbage that is collected. It returns that too if the constants that were there at
first, any of them, are put back; and so it does, of any class, with each other constant. A
string that was resolved is kept, so that no other object gets its handle. -/
theorem resolve_remembered :
    (∀ config classes machine, Machine.start config classes = .ok machine → machine.Proper) ∧
    (∀ {ε α : Type} {step : EStateM ε Machine α}, Operation step → Walks step) ∧
    resolve target owner index later = .ok constant later ∧
    (∀ pool : ConstantPool,
      (∀ place, pool.slot place = (origin.cls owner).pool.slot place ∨
        pool.slot place = (later.cls owner).pool.slot place) →
      Returns (resolve target owner index) (later.withPool owner pool) constant ∧
      ∀ wanted reader place found,
        Returns (resolve wanted reader place) (later.withPool owner pool) found ↔
          Returns (resolve wanted reader place) later found) ∧
    ∀ ref cls, constant = .resolvedString ref → ((origin.cls owner).pool.slot index).IsReference →
      resolved.heap.class? ref = some cls → later.heap.class? ref = some cls := by
  have again := resolve_again proper known early ran further
  have changes : Changes origin later :=
    (early.trans ((walks_resolve target owner index).ok ran)).trans further
  have knownLater := (changes.caches proper).classes.has known
  refine ⟨fun _ _ _ started => proper_of_start started, fun operation => operation.walks, again,
    fun pool mixed => ?_, fun ref cls string symbolic live => ?_⟩
  · have restores := restores_of_origin proper known early ran further mixed
    have same := returns_resolve_withPool knownLater restores (changes.proper proper)
    exact ⟨(same owner target index constant).mpr ⟨later, again⟩,
      fun wanted reader place found => same reader wanted place found⟩
  · exact class?_resolved proper known early ran further string symbolic live

end

/-! A list whose nodes refer to further nodes, and a machine with no other class. -/

/-- A class with a reference to its own field. -/
def nodeClass : Class where
  id := ⟨0⟩
  name := "demo/Node"
  flags := 0
  superclass := none
  interfaces := []
  pool := ⟨#[.empty, .cls 2, .utf8 "demo/Node", .fieldRef 1 4, .nameAndType 5 6, .utf8 "next",
    .utf8 "Ldemo/Node;"]⟩
  fields := [⟨"next", "Ldemo/Node;", 0, .reference, 0, none⟩]

/-- A machine whose only class is that of nodes. -/
def nodeMachine : Machine where
  config := default
  heap := Heap.ofConfig default
  registry := { toClassTable := (Registry.ofPath {}).register nodeClass }
  known := default
  exec := default

theorem proper_nodeMachine : nodeMachine.Proper where
  closed := by
    refine (Registry.closed_ofPath {}).table.register rfl ⟨?_, ?_, ?_, fun index => ?_⟩
    · rintro _ ⟨⟩
    · rintro _ ⟨⟩
    · rintro _ _ ⟨⟩
    · rw [ConstantPool.slot]
      generalize index.toNat = place
      rcases place with _ | _ | _ | _ | _ | _ | _ | place <;> trivial
  accounted := Heap.accounted_of_empty rfl rfl rfl

/-- The class is found by its name, and the field in the class. -/
theorem returns_nodeMachine : Returns (resolve .field ⟨0⟩ 3) nodeMachine
    (.resolvedField ⟨⟨0⟩, 0, .reference, false⟩) := by
  have found : nodeMachine.registry.find? "demo/Node" = some ⟨0⟩ :=
    Linking.find?_register_self (Registry.ofPath {}).toClassTable nodeClass
  have held : (nodeMachine.cls ⟨0⟩).pool.slot 1 = .cls 2 := rfl
  have brings : Brings nodeMachine ⟨0⟩ 1 ⟨0⟩
      (nodeMachine.setConstant ⟨0⟩ 1 (.resolvedClass ⟨0⟩)) :=
    .loaded held rfl (Registry.load_eq_of_find? found)
  refine returns_of_resolves (.member (.field 1 4) rfl brings ?_)
  have chain : (nodeMachine.setConstant ⟨0⟩ 1 (.resolvedClass ⟨0⟩)).registry.superChain ⟨0⟩ =
      [⟨0⟩] := by
    rw [ClassTable.superChain]
    rfl
  rw [ClassTable.member?, ClassTable.lookupField, chain]
  rfl

/-- A field that was resolved once is resolved after a collection as well, and once more when
all that was resolved is symbolic again. -/
theorem resolve_remembered_node : ∃ resolved,
    resolve .field ⟨0⟩ 3 nodeMachine = .ok (.resolvedField ⟨⟨0⟩, 0, .reference, false⟩) resolved ∧
      resolve .field ⟨0⟩ 3 resolved.collectGarbage.2 =
        .ok (.resolvedField ⟨⟨0⟩, 0, .reference, false⟩) resolved.collectGarbage.2 ∧
      Returns (resolve .field ⟨0⟩ 3) (resolved.collectGarbage.2.withPool ⟨0⟩ nodeClass.pool)
        (.resolvedField ⟨⟨0⟩, 0, .reference, false⟩) := by
  obtain ⟨resolved, ran⟩ := returns_nodeMachine
  have known : nodeMachine.registry.Has ⟨0⟩ := Nat.zero_lt_one
  obtain ⟨-, -, again, afresh, -⟩ :=
    resolve_remembered proper_nodeMachine known .refl ran (.single .collect)
  exact ⟨resolved, ran, again, (afresh nodeClass.pool fun _ => .inl rfl).1⟩

end Guest

/-!
## The accounts of a heap along a run

A machine starts with a heap in balance, and whatever it is asked to do goes along counted
changes, so its heap is in balance at every moment of every run: no mark is left in it, and a
collection is exact. Each handle that is given out on the way is that of no live object, as
long as its place in the arena has a handle of its own. A limit below that of as many headers
as there are handles leaves one for each place; a larger one does not, since what a handle can
tell is the rest of its place modulo 2^32.
-/

/-- The place that the next object is put into. -/
def Heap.nextPlace (heap : Heap) : Nat := heap.free.headD heap.objects.size

/-- A handle that is given out is that of no live object, if its place has a handle of its own. -/
theorem Heap.Balanced.get?_issued {heap : Heap} (balanced : heap.Balanced) (object : Object)
    (own : heap.nextPlace < handles) : heap.get? (heap.insert object).1 = none := by
  have index : (heap.insert object).1.index = heap.nextPlace := Ref.index_ofIndex own
  have empty : heap.holds heap.nextPlace = false := by
    rw [nextPlace]
    cases free : heap.free with
    | nil => simp [holds, Array.getD_eq_getD_getElem?]
    | cons hole rest => exact ((balanced.mem_free hole).mp (free ▸ List.mem_cons_self)).2
  rw [holds, Option.isSome_eq_false_iff, Option.isNone_iff_eq_none] at empty
  rw [get?, index, empty]

/-- A limit that leaves a handle for each object leaves one for the next. -/
theorem Heap.Balanced.nextPlace_lt {heap : Heap} (balanced : heap.Balanced) {object : Object}
    (fits : heap.fits object.size = true) (fresh : object.marked = false)
    (small : heap.limit < handles * Object.headerSize) : heap.nextPlace < handles := by
  have places := (balanced.insert fits fresh).places
  have limit : (heap.insert object).2.limit = heap.limit := rfl
  have inside : heap.nextPlace < (heap.insert object).2.objects.size := by
    rw [nextPlace]
    cases free : heap.free with
    | nil => simp [(insert_of_free_eq_nil object free).1]
    | cons hole rest =>
        rw [(insert_of_free_eq_cons object free).1, Array.size_setIfInBounds]
        exact ((balanced.mem_free hole).mp (free ▸ List.mem_cons_self)).1
  rw [limit] at places
  have few := Nat.lt_of_mul_lt_mul_right (Nat.lt_of_le_of_lt places small)
  exact Nat.lt_trans inside few

namespace Machine

/-! ## Starting -/

theorem balanced_of_linked {config : Config} {path : ClassPath} {machine : Machine}
    (started : linked config path = .ok machine) :
    machine.heap.Balanced ∧ machine.heap.limit = config.heapLimit := by
  simp only [linked, Except.bind_eq_ok, pure, Except.pure, Except.ok.injEq] at started
  obtain ⟨core, -, wellKnown, -, rfl⟩ := started
  exact ⟨Heap.balanced_of_empty rfl rfl rfl rfl, rfl⟩

theorem balanced_of_start {config : Config} {classes : ClassPath} {machine : Machine}
    (started : start config classes = .ok machine) :
    machine.heap.Balanced ∧ machine.heap.limit = config.heapLimit := by
  obtain ⟨_, before, -, linked, shapes⟩ := shapes_of_start started
  obtain ⟨balanced, limit⟩ := balanced_of_linked linked
  exact ⟨shapes.counted.balanced balanced, shapes.counted.limit_eq.trans limit⟩

/-! ## Runs -/

/-- What allocates an object and returns its handle. -/
inductive Allocation : Guest Ref → Prop
  | object (id : ClassId) : Allocation (Guest.newInstance id)
  | elements (id : ClassId) (data : ArrayData) : Allocation (Guest.newArrayOf id data)
  | array (id : ClassId) (size : Int32) : Allocation (Guest.newArray id size)
  | string (text : String) : Allocation (Guest.newString text)
  | units (units : List UInt16) : Allocation (Guest.newStringOfUnits units)
  | throwable (className : String) (message : Option String) :
      Allocation (Guest.newThrowable className message)
  | clone (ref : Ref) : Allocation (Guest.cloneObject ref)

theorem Allocation.allots {allocation : Guest Ref} (allocates : Allocation allocation) :
    AllotsIn .all allocation := by
  cases allocates with
  | object => exact Guest.allots_newInstance _
  | elements => exact Guest.allots_newArrayOf _ _
  | array => exact Guest.allots_newArray _ _
  | string => exact Guest.allots_newString _
  | units => exact Guest.allots_newStringOfUnits _
  | throwable => exact Guest.allots_newThrowable _ _
  | clone => exact Guest.allots_cloneObject _

/-- What is done with a machine at a time, whether it succeeds or not. -/
inductive Does (before : Machine) : Machine → Prop
  | returns {ε α : Type} {step : EStateM ε Machine α} {value : α} {after : Machine}
      (operation : Operation step) (ran : step before = .ok value after) : Does before after
  | throws {ε α : Type} {step : EStateM ε Machine α} {raised : ε} {after : Machine}
      (operation : Operation step) (ran : step before = .error raised after) : Does before after
  | allocates {allocation : Guest Ref} {ref : Ref} {after : Machine}
      (allocates : Allocation allocation) (ran : allocation before = .ok ref after) :
      Does before after
  | refuses {allocation : Guest Ref} {raised : Throw} {after : Machine}
      (allocates : Allocation allocation) (ran : allocation before = .error raised after) :
      Does before after

theorem Does.counts {before after : Machine} (does : Does before after) : Counts before after := by
  cases does with
  | returns operation ran => exact operation.tallies.ok ran
  | throws operation ran => exact operation.tallies.error ran
  | allocates allocates ran => exact allocates.allots.paces.ok ran
  | refuses allocates ran => exact allocates.allots.paces.error ran

/-- Whatever is done one after the other goes along counted changes. -/
theorem counts_of_does {before after : Machine} (run : Relation.ReflTransGen Does before after) :
    Counts before after := by
  induction run with
  | refl => exact .refl
  | tail _ does ih => exact ih.trans does.counts

/-- The accounts of a heap are right, and no object is marked, at every moment of every run. -/
theorem accounted_of_does {config : Config} {classes : ClassPath} {origin later : Machine}
    (started : start config classes = .ok origin) (run : Relation.ReflTransGen Does origin later) :
    later.heap.Accounted :=
  ((counts_of_does run).balanced (balanced_of_start started).1).toAccounted

/-- A collection is exact where no object is marked, and that is so at every moment of every run.
Objects are live afterwards exactly if they were live and are reachable, and are what they were;
that is so of the places of the arena too, whether or not they have handles, where an object that
is kept for ever needs none to be reached. No mark is left, and all but the heap is untouched. The
report counts the handles of live objects that are reached, the objects and the bytes freed and, as
the accounts of the heap were right, what is left. -/
theorem collectGarbage_exact {machine : Machine} (unmarked : machine.heap.Unmarked) :
    let report := machine.collectGarbage.1
    let after := machine.collectGarbage.2
    (∀ ref object, after.heap.get? ref = some object ↔
        machine.heap.get? ref = some object ∧ machine.Reachable ref) ∧
      (∀ index object, after.heap.objects.getD index none = some object ↔
        machine.heap.objects.getD index none = some object ∧
          (object.sticky = true ∨ ∃ ref : Ref, ref.index = index ∧ machine.Reachable ref)) ∧
      after.heap.Unmarked ∧
      after = { machine with heap := after.heap } ∧
      report.marked = {ref | machine.heap.isLive ref = true ∧ machine.Reachable ref}.ncard ∧
      report.freed + after.heap.population = machine.heap.population ∧
      report.freedBytes + after.heap.occupiedBytes = machine.heap.occupiedBytes ∧
      (machine.heap.Accounted → after.heap.Accounted ∧
        report.live = after.heap.population ∧ report.liveBytes = after.heap.occupiedBytes) ∧
      ∀ config classes origin later, start config classes = .ok origin →
        Relation.ReflTransGen Does origin later → later.heap.Unmarked ∧ later.heap.Accounted := by
  refine ⟨get?_collectGarbage unmarked, fun _ _ => getD_objects_collectGarbage unmarked, ?_⟩
  rw [collectGarbage_eq]
  refine ⟨machine.heap.unmarked_swept _, rfl, markCount_eq unmarked,
    machine.heap.length_unmarked_add_population _,
    machine.heap.bytesOf_unmarked_add_occupiedBytes _, fun accounted => ?_,
    fun _ _ _ _ started run => ?_⟩
  · have right := accounted.swept machine.marks
    exact ⟨right, right.liveObjects_eq, right.charged⟩
  · have right := accounted_of_does started run
    exact ⟨right.unmarked, right⟩

theorem live_collectGarbage_ring :
    ring.heap.Unmarked ∧ ring.collectGarbage.2.heap.Unmarked ∧
      ring.collectGarbage.2.heap.isLive (Ref.ofIndex 1) = true ∧
      ring.collectGarbage.1.live = ring.collectGarbage.2.heap.population ∧
      ring.collectGarbage.1.liveBytes = ring.collectGarbage.2.heap.occupiedBytes := by
  obtain ⟨kept, -, clear, -, -, -, -, counts, -⟩ := collectGarbage_exact accounted_ring.unmarked
  have pinned : ring.Reachable (Ref.ofIndex 0) := .root (.pinned (by decide))
  have next : ring.Reachable (Ref.ofIndex 1) :=
    .edge pinned rfl (.element rfl (Array.mem_singleton.mpr rfl))
  have live := (kept (Ref.ofIndex 1) _).mpr ⟨rfl, next⟩
  exact ⟨accounted_ring.unmarked, clear, by rw [Heap.isLive, live, Option.isSome_some],
    (counts accounted_ring).2⟩

/-- The accounts of a heap are exact. A machine starts with the heap of its configuration in
balance, and whatever is done with it afterwards, whether it succeeds or not, goes along
counted changes. At each moment along them the bytes in use are those that the live objects
take and are below the limit, the free list names each empty place of the arena once, and the
live objects are as many as are counted, those that were allocated and not freed. Each handle
that an allocation returns was given out at a moment when it was that of no live object, if the
place of its object has a handle of its own; and so it has below a limit that leaves a handle for
each object. -/
theorem heap_accounts_exact {origin later : Machine} (balanced : origin.heap.Balanced)
    (counts : Counts origin later) :
    (∀ config classes machine, start config classes = .ok machine →
      machine.heap.Balanced ∧ machine.heap.limit = config.heapLimit) ∧
    (∀ after, Relation.ReflTransGen Does later after → Counts later after) ∧
    later.heap.usedBytes = later.heap.occupiedBytes ∧
    later.heap.usedBytes ≤ origin.heap.limit ∧ later.heap.limit = origin.heap.limit ∧
    (∀ index, index ∈ later.heap.free ↔
      index < later.heap.objects.size ∧ later.heap.holds index = false) ∧
    later.heap.free.Nodup ∧
    later.heap.liveObjects = later.heap.population ∧
    later.heap.liveObjects + later.heap.totalFreed = later.heap.totalAllocated ∧
    ∀ allocation ref after, Allocation allocation → allocation later = .ok ref after →
      ∃ (middle : Machine) (object : Object), Counts later middle ∧
        (middle.heap.insert object).1 = ref ∧
        (middle.heap.nextPlace < Heap.handles → middle.heap.get? ref = none) ∧
        (origin.heap.limit < Heap.handles * Object.headerSize →
          middle.heap.nextPlace < Heap.handles) ∧
        Counts { middle with heap := (middle.heap.insert object).2 } after := by
  have kept := counts.balanced balanced
  have live := kept.toAccounted.liveObjects_eq
  refine ⟨fun _ _ _ started => balanced_of_start started, fun _ run => counts_of_does run,
    kept.charged, ?_, counts.limit_eq, kept.mem_free, kept.nodup_free, live, ?_, ?_⟩
  · rw [← counts.limit_eq]
    exact kept.bounded
  · rw [live]
    exact kept.counted
  · intro allocation ref after allocates ran
    obtain ⟨middle, object, reached, ⟨fits, new⟩, rfl, left⟩ :=
      (ends_of_ok ran (allocates.allots later)).2
    have here := reached.balanced kept
    refine ⟨middle, object, reached, rfl, here.get?_issued object, fun small => ?_, left⟩
    rw [← counts.limit_eq, ← reached.limit_eq] at small
    exact here.nextPlace_lt fits new.unmarked small

/-- A node is allocated, at a handle that no object had, and is the only one there is. -/
theorem heap_accounts_exact_node : ∃ ref made middle,
    Guest.newInstance ⟨0⟩ Guest.nodeMachine = .ok ref made ∧ made.heap.isLive ref = true ∧
      Counts Guest.nodeMachine middle ∧ middle.heap.get? ref = none ∧
      made.heap.usedBytes = made.heap.occupiedBytes ∧ made.heap.population = 1 := by
  have balanced : Guest.nodeMachine.heap.Balanced := Heap.balanced_of_empty rfl rfl rfl rfl
  have ran : Guest.newInstance ⟨0⟩ Guest.nodeMachine = .ok _ _ := rfl
  have counts : Counts Guest.nodeMachine _ := (Guest.allots_newInstance ⟨0⟩).paces.ok ran
  obtain ⟨-, -, -, -, -, -, -, -, -, issues⟩ := heap_accounts_exact balanced .refl
  obtain ⟨middle, _, reached, -, fresh, own, -⟩ := issues _ _ _ (.object ⟨0⟩) ran
  obtain ⟨-, -, charged, -, -, -, -, live, -⟩ := heap_accounts_exact balanced counts
  exact ⟨_, _, middle, ran, rfl, reached, fresh (own (by decide)), charged, live.symm⟩

/-! ### Handles that come round -/

theorem run_collectIfDue (size : Nat) (machine : Machine) :
    Guest.collectIfDue size machine = .ok ⟨⟩
      (if machine.heap.wantsCollection size then machine.collectGarbage.2 else machine) := by
  refine (bind_of_ok (run_get machine)).trans ?_
  split <;> rfl

/-- What is allocated is put into the heap that a collection has left, if one was due. -/
theorem run_alloc_of_due {machine between : Machine} {payload size : Nat} {make : Int32 → Object}
    (charged : Heap.objectSize? payload = some size)
    (due : Guest.collectIfDue size machine = .ok ⟨⟩ between)
    (fits : between.heap.fits size = true) :
    Guest.alloc payload make machine =
      .ok (between.heap.nextHash.2.insert (make between.heap.nextHash.1)).1
        { between with
          heap := (between.heap.nextHash.2.insert (make between.heap.nextHash.1)).2 } := by
  rw [Guest.alloc, charged]
  refine (bind_of_ok due).trans ((bind_of_ok (run_get between)).trans ?_)
  rw [fits]
  rfl

/-- What is allocated without a collection where no place is free is behind all that there is. -/
theorem run_alloc_of_room {machine : Machine} {payload size : Nat} {make : Int32 → Object}
    (charged : Heap.objectSize? payload = some size)
    (early : machine.heap.wantsCollection size = false) (fits : machine.heap.fits size = true) :
    Guest.alloc payload make machine =
      .ok (machine.heap.nextHash.2.insert (make machine.heap.nextHash.1)).1
        { machine with
          heap := (machine.heap.nextHash.2.insert (make machine.heap.nextHash.1)).2 } := by
  refine run_alloc_of_due charged ((run_collectIfDue size machine).trans ?_) fits
  rw [early]
  rfl

/-- Whether a machine holds so many small objects in as many places, those of another one before
the others, in a heap that is far from full. -/
structure Crowds (base : Machine) (count : Nat) (machine : Machine) : Prop where
  aside : machine = { base with heap := machine.heap }
  size : machine.heap.objects.size = count
  held : ∀ index < count, machine.heap.holds index = true
  kept : ∀ index object, base.heap.objects.getD index none = some object →
    machine.heap.objects.getD index none = some object
  free : machine.heap.free = []
  used : machine.heap.usedBytes ≤ count * 64
  recent : machine.heap.recentBytes ≤ count * 64
  limit : machine.heap.limit = 2 ^ 40
  threshold : machine.heap.threshold = 2 ^ 40
  stress : machine.heap.stress = none

/-- One more object finds its place behind those that there are. -/
theorem Crowds.alloc {base machine : Machine} {count : Nat} (crowds : base.Crowds count machine)
    (room : count < 2 ^ 33) {payload : Nat} (few : payload ≤ 48) (make : Int32 → Object)
    (sized : ∀ hash, (make hash).payload = payload) : ∃ hash after,
      Guest.alloc payload make machine = .ok (Ref.ofIndex count) after ∧
        base.Crowds (count + 1) after ∧
        after.heap.objects.getD count none = some (make hash) := by
  have header : Object.headerSize = 16 := rfl
  have charged : Heap.objectSize? payload = some (payload + 16) := by
    rw [Heap.objectSize?, if_pos (Nat.lt_of_le_of_lt (Nat.add_le_add_right few _) (by decide))]
    rfl
  have early : machine.heap.wantsCollection (payload + 16) = false := by
    have recent := crowds.recent
    simp only [Heap.wantsCollection, crowds.stress, crowds.threshold, Option.any_none,
      Bool.false_or, decide_eq_false_iff_not]
    omega
  have fits : machine.heap.fits (payload + 16) = true := by
    have used := crowds.used
    simp only [Heap.fits, crowds.limit, decide_eq_true_eq]
    omega
  have ran : Guest.alloc payload make machine = _ := run_alloc_of_room charged early fits
  have full : machine.heap.nextHash.2.free = [] := crowds.free
  have charge : (make machine.heap.nextHash.1).size = 16 + payload := by
    rw [Object.size, sized, header]
  have place : (machine.heap.nextHash.2.insert (make machine.heap.nextHash.1)).1 =
      Ref.ofIndex count := by
    rw [← crowds.size]
    exact congrArg (fun free : List Nat => Ref.ofIndex (free.headD machine.heap.objects.size))
      crowds.free
  obtain ⟨objects, free⟩ := Heap.insert_of_free_eq_nil (make machine.heap.nextHash.1) full
  rw [place] at ran
  have entry (index : Nat) :
      (machine.heap.nextHash.2.insert (make machine.heap.nextHash.1)).2.objects.getD index none =
        if index = count then some (make machine.heap.nextHash.1)
        else machine.heap.objects.getD index none := by
    have same : machine.heap.nextHash.2.objects.size = count := crowds.size
    rw [objects, Array.getD_eq_getD_getElem?, Array.getElem?_push, same]
    split
    · rfl
    · exact (Array.getD_eq_getD_getElem? ..).symm
  refine ⟨_, _, ran, ⟨?_, ?_, fun index below => ?_, fun index object here => ?_, free, ?_, ?_,
    crowds.limit, crowds.threshold, crowds.stress⟩, (entry count).trans (if_pos rfl)⟩
  · exact congrArg (fun other : Machine => { other with
      heap := (machine.heap.nextHash.2.insert (make machine.heap.nextHash.1)).2 }) crowds.aside
  · rw [objects, Array.size_push]
    exact congrArg (· + 1) crowds.size
  · rw [Heap.holds, entry]
    split
    · rfl
    · exact crowds.held index (by omega)
  · rw [entry]
    split
    next last =>
      have kept := crowds.kept index object here
      rw [last, ← crowds.size, Array.getD_eq_getD_getElem?, Array.getElem?_size] at kept
      cases kept
    next => exact crowds.kept index object here
  · have used := crowds.used
    change machine.heap.usedBytes + (make machine.heap.nextHash.1).size ≤ _
    omega
  · have recent := crowds.recent
    change machine.heap.recentBytes + (make machine.heap.nextHash.1).size ≤ _
    omega

/-- So does an instance of a class with few fields. -/
theorem Crowds.newInstance {base machine : Machine} {count : Nat}
    (crowds : base.Crowds count machine) (room : count < 2 ^ 33) (id : ClassId)
    (few : (base.cls id).instanceSlots.toNat ≤ 12) : ∃ after,
      Guest.newInstance id machine = .ok (Ref.ofIndex count) after ∧
        base.Crowds (count + 1) after := by
  have same : machine.cls id = base.cls id := by rw [cls, crowds.aside, cls]
  obtain ⟨_, after, ran, crowded, -⟩ := crowds.alloc room (Nat.mul_le_mul_right 4 few)
    (fun hash => { cls := id, hash, body := .instance (Fields.ofSize _) })
    fun _ => congrArg (· * 4) (Fields.size_ofSize _)
  refine ⟨after, ?_, crowded⟩
  rw [Guest.newInstance]
  refine (bind_of_ok (run_get machine)).trans ?_
  rw [same]
  exact ran

/-- Nodes are allocated one after the other, as many as there is room for. -/
theorem exists_crowds {base : Machine} {least count : Nat} (crowds : base.Crowds least base)
    (nodes : (base.cls ⟨0⟩).instanceSlots.toNat ≤ 12) (more : least ≤ count)
    (room : count < 2 ^ 33) :
    ∃ later, Relation.ReflTransGen Does base later ∧ base.Crowds count later := by
  induction count, more using Nat.le_induction with
  | base => exact ⟨base, .refl, crowds⟩
  | succ count _ ih =>
      obtain ⟨later, run, crowds⟩ := ih (by omega)
      obtain ⟨after, ran, crowded⟩ := crowds.newInstance (by omega) ⟨0⟩ nodes
      exact ⟨after, run.tail (.allocates (.object ⟨0⟩) ran), crowded⟩

/-- A machine whose heap is not limited before the handles are. -/
def vastMachine : Machine :=
  { Guest.nodeMachine with
    heap := Heap.ofConfig { heapLimit := 2 ^ 40, gcThreshold := 2 ^ 40 } }

/-- There are fewer handles than objects that a large heap has room for: once each handle is that
of a live object, an allocation returns one of them again. -/
theorem allocation_reissues_handle : ∃ later ref after,
    vastMachine.heap.Balanced ∧ Relation.ReflTransGen Does vastMachine later ∧
      Guest.newInstance ⟨0⟩ later = .ok ref after ∧ later.heap.isLive ref = true := by
  have empty : vastMachine.Crowds 0 vastMachine :=
    ⟨rfl, rfl, nofun, fun _ _ here => here, rfl, Nat.zero_le _, Nat.zero_le _, rfl, rfl, rfl⟩
  obtain ⟨later, run, crowds⟩ :=
    exists_crowds empty (Nat.zero_le 12) (Nat.zero_le Heap.handles) (by decide)
  obtain ⟨after, ran, -⟩ := crowds.newInstance (by decide) ⟨0⟩ (Nat.zero_le 12)
  have first : (Ref.ofIndex Heap.handles).index = 0 := rfl
  refine ⟨later, _, after, Heap.balanced_of_empty rfl rfl rfl rfl, run, ran, ?_⟩
  rw [Heap.isLive, Heap.get?, first]
  exact crowds.held 0 (by decide)

end Machine

end Jvm
