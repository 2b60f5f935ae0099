import Jvm.Machine.Allocate
import Jvm.Proofs.Registry.Overlooking

/-!
# What allocation overlooks

Objects are traced by the layouts of their classes and named by static fields, so that no
pool and no code is looked at when objects are made and when garbage is collected on the
way. Beside other pools and other code the same objects are allocated, the same string
becomes the canonical one, or there is no room for it either.
-/

namespace Jvm

/-! ## Collections -/

namespace Heap

/-- Marking follows the edges of objects. -/
theorem mark_congr {table other : ClassTable} (same : edges other = edges table)
    (fuel : Nat) (worklist : List Ref) (now : Heap × Nat) :
    mark other fuel worklist now = mark table fuel worklist now := by
  induction fuel, worklist, now using mark.induct table with
  | case1 fuel now => rw [mark, mark]
  | case2 fuel ref rest heap count gone ih =>
      rw [mark, mark, gone]
      exact ih
  | case3 fuel ref rest heap count object live marked ih =>
      rw [mark, mark, live]
      simp only [marked, if_true]
      exact ih
  | case4 ref rest heap count object live fresh =>
      rw [mark, mark, live]
      simp only [if_neg fresh]
  | case5 ref rest heap count object live fresh fuel ih =>
      rw [mark, mark, live]
      simp only [if_neg fresh, same]
      exact ih

/-- A collection keeps what it keeps beside a table with the same edges. -/
theorem collect_congr {table other : ClassTable} (same : edges other = edges table) (heap : Heap)
    (roots : List Ref) : heap.collect other roots = heap.collect table roots := by
  rw [collect, collect, mark_congr same]

end Heap

namespace Machine

/-- Whether a change of machines is one that allocation does not notice: it is to pools, to
methods and to what no object and no root depends on. -/
structure Unnoticed (meant : Machine → Prop) (change : Machine → Machine) : Prop where
  held : ∀ machine, (change machine).exec.roots = machine.exec.roots
  parked : ∀ machine, (change machine).parked = machine.parked
  completed : ∀ machine, (change machine).completed = machine.completed
  heap : ∀ machine, (change machine).heap = machine.heap
  interned : ∀ machine, (change machine).interned = machine.interned
  outOfMemory : ∀ machine, (change machine).outOfMemory = machine.outOfMemory
  known : ∀ machine, (change machine).known = machine.known
  size : ∀ machine, (change machine).registry.size = machine.registry.size
  classes : ∀ machine id, ∃ pool methods,
    (change machine).cls id = { machine.cls id with pool, methods }
  contents : ∀ machine heap interned, meant machine → meant { machine with heap, interned } ∧
    { change machine with heap, interned } = change { machine with heap, interned }

namespace Unnoticed

variable {meant : Machine → Prop} {change : Machine → Machine} (unnoticed : Unnoticed meant change)

include unnoticed

/-- A class is what it was in all that is neither its pool nor its methods. -/
theorem view {α : Type} (view : Class → α)
    (blind : ∀ cls pool methods, view { cls with pool, methods } = view cls) (machine : Machine)
    (id : ClassId) : view ((change machine).cls id) = view (machine.cls id) := by
  obtain ⟨pool, methods, same⟩ := unnoticed.classes machine id
  rw [same, blind]

theorem map_class? {α : Type} (view : Class → α)
    (blind : ∀ cls pool methods, view { cls with pool, methods } = view cls) (machine : Machine)
    (id : ClassId) : ((change machine).registry.class? id).map view =
      (machine.registry.class? id).map view := by
  have same := unnoticed.view view blind machine id
  have bounds := unnoticed.size machine
  simp only [Machine.cls, ClassTable.get, ClassTable.size, ClassTable.class?,
    Array.getD_eq_getD_getElem?] at same bounds ⊢
  by_cases within : id.index < machine.registry.classes.size
  · rw [Array.getElem?_eq_getElem (bounds ▸ within), Array.getElem?_eq_getElem within] at same ⊢
    exact congrArg some same
  · rw [Array.getElem?_eq_none (by omega), Array.getElem?_eq_none (by omega)]

theorem roots (machine : Machine) : (change machine).roots = machine.roots := by
  have references : (change machine).registry.classes.toList.map Class.references =
      machine.registry.classes.toList.map Class.references := by
    apply List.ext_getElem?
    intro index
    simp only [List.getElem?_map, Array.getElem?_toList]
    exact unnoticed.map_class? Class.references (fun _ _ _ => rfl) machine ⟨index⟩
  have statics : (change machine).registry.classes.toList.flatMap Class.references =
      machine.registry.classes.toList.flatMap Class.references := by
    rw [List.flatMap_def, List.flatMap_def, references]
  rw [Machine.roots, Machine.roots, statics, unnoticed.heap, unnoticed.interned,
    unnoticed.outOfMemory, unnoticed.held, unnoticed.parked, unnoticed.completed]

theorem edges (machine : Machine) : Heap.edges (change machine).registry.toClassTable =
    Heap.edges machine.registry.toClassTable := by
  funext object
  have layouts := unnoticed.map_class? Class.refSlots (fun _ _ _ => rfl) machine object.cls
  have slots : ∀ cls? : Option Class, cls?.elim [] Class.refSlots =
      (cls?.map Class.refSlots).elim [] id := by
    rintro (_ | _) <;> rfl
  rw [Heap.edges, Heap.edges, slots, slots, layouts]

theorem withHeap {machine : Machine} (holds : meant machine) (heap : Heap) :
    meant { machine with heap } ∧
      { change machine with heap } = change { machine with heap } := by
  obtain ⟨kept, same⟩ := unnoticed.contents machine heap machine.interned holds
  refine ⟨kept, Eq.trans ?_ same⟩
  rw [← unnoticed.interned machine]

theorem collectGarbage {machine : Machine} (holds : meant machine) :
    (change machine).collectGarbage =
      (machine.collectGarbage.1, change machine.collectGarbage.2) := by
  rw [Machine.collectGarbage, Machine.collectGarbage, unnoticed.roots, unnoticed.heap,
    Heap.collect_congr (unnoticed.edges machine)]
  exact congrArg (Prod.mk _) (unnoticed.withHeap holds _).2

end Unnoticed

/-- A machine with another pool in one of its classes. -/
def withPool (owner : ClassId) (pool : ConstantPool) (machine : Machine) : Machine :=
  machine.modifyClass owner fun cls => { cls with pool }

theorem unnoticed_withPool (owner : ClassId) (pool : ConstantPool) :
    Unnoticed (fun machine => machine.registry.Has owner) (withPool owner pool) where
  held _ := rfl
  parked _ := rfl
  completed _ := rfl
  heap _ := rfl
  interned _ := rfl
  outOfMemory _ := rfl
  known _ := rfl
  size _ := ClassTable.size_modify ..
  classes machine id :=
    (ClassTable.unnoticed_withPool owner pool).classes machine.registry.toClassTable id
  contents _ _ _ known := ⟨known, rfl⟩

end Machine

namespace Guest

variable {meant : Machine → Prop} {change : Machine → Machine}
  (unnoticed : Machine.Unnoticed meant change)

include unnoticed

/-! ## Allocation -/

theorem overlooks_modifyHeap (update : Machine → Heap → Heap)
    (blind : ∀ machine, update (change machine) = update machine) :
    Overlooks meant change (modify fun machine => machine.modifyHeap (update machine) :
      Guest Unit) := by
  refine .modify (fun machine holds => (unnoticed.withHeap holds _).1) fun machine holds => ?_
  rw [blind, Machine.modifyHeap, unnoticed.heap]
  exact (unnoticed.withHeap holds _).2

theorem overlooks_throwOutOfMemory {α : Type} :
    Overlooks meant change (throwOutOfMemory : Guest α) := by
  refine .get_bind (fun machine _ => by rw [unnoticed.outOfMemory]) fun machine _ => ?_
  split
  · exact .throw _
  · exact .throw _

theorem overlooks_collect : Overlooks meant change collect :=
  .modifyGet (fun _ holds => (unnoticed.withHeap holds _).1) fun _ holds =>
    unnoticed.collectGarbage holds

theorem overlooks_collectIfDue (size : Nat) : Overlooks meant change (collectIfDue size) := by
  refine .get_bind (fun machine _ => by rw [unnoticed.heap]) fun machine _ => ?_
  split
  · exact (overlooks_collect unnoticed).bind fun _ => .pure _
  · exact .pure _

theorem overlooks_insert (make : Int32 → Object) :
    Overlooks meant change (modifyGet fun machine =>
      let (hash, heap) := machine.heap.nextHash
      let (ref, heap) := heap.insert (make hash)
      (ref, { machine with heap }) : Guest Ref) := by
  refine .modifyGet (fun machine holds => (unnoticed.withHeap holds _).1) fun machine holds => ?_
  rw [unnoticed.heap]
  exact congrArg (Prod.mk _) (unnoticed.withHeap holds _).2

theorem overlooks_alloc (payload : Nat) (make : Int32 → Object) :
    Overlooks meant change (alloc payload make) := by
  rw [alloc]
  cases Heap.objectSize? payload with
  | none => exact overlooks_throwOutOfMemory unnoticed
  | some size =>
      refine (overlooks_collectIfDue unnoticed size).bind fun _ =>
        .get_bind (fun machine _ => by rw [unnoticed.heap]) fun machine _ => ?_
      split
      · refine (overlooks_collect unnoticed).bind fun _ =>
          .get_bind (fun machine _ => by rw [unnoticed.heap]) fun machine _ => ?_
        split
        · exact (overlooks_throwOutOfMemory unnoticed).bind fun _ =>
            overlooks_insert unnoticed make
        · exact overlooks_insert unnoticed make
      · exact overlooks_insert unnoticed make

theorem overlooks_newInstance (id : ClassId) : Overlooks meant change (newInstance id) := by
  refine .get_bind (fun machine _ => ?_) fun machine _ => overlooks_alloc unnoticed _ _
  rw [unnoticed.view Class.instanceSlots fun _ _ _ => rfl]

theorem overlooks_newArrayOf (id : ClassId) (data : ArrayData) :
    Overlooks meant change (newArrayOf id data) := overlooks_alloc unnoticed _ _

theorem overlooks_newCompactString (bytes : List Int8) (coder : Int8) :
    Overlooks meant change (newCompactString bytes coder) := by
  refine .get_bind (fun machine _ => by rw [unnoticed.known]) fun machine _ =>
    (overlooks_newArrayOf unnoticed _ _).bind fun value =>
    (overlooks_newInstance unnoticed _).bind fun string => ?_
  exact (overlooks_modifyHeap unnoticed _ fun _ => rfl).bind fun _ => .pure _

theorem overlooks_newString (text : String) : Overlooks meant change (newString text) :=
  overlooks_newCompactString unnoticed _ _

theorem overlooks_intern (text : String) (ref : Ref) :
    Overlooks meant change (modify fun machine => machine.intern text ref : Guest Unit) := by
  refine .modify (fun machine holds => (unnoticed.contents machine _ _ holds).1)
    fun machine holds => ?_
  rw [Machine.intern, unnoticed.heap, unnoticed.interned]
  exact (unnoticed.contents machine _ _ holds).2

/-- A string that is interned beside another pool is the same one. -/
theorem overlooks_internString (text : String) : Overlooks meant change (internString text) := by
  refine .get_bind (fun machine _ => by rw [unnoticed.interned]) fun machine _ => ?_
  split
  · exact .pure _
  · exact (overlooks_newString unnoticed text).bind fun ref =>
      (overlooks_intern unnoticed text ref).bind fun _ => .pure _

end Guest

end Jvm
