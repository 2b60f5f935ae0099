import Mathlib.Data.Set.Card
import Std.Data.DHashMap.Internal.WF
import Jvm.Machine.Allocate
import Jvm.Proofs.Heap.Accounts

/-!
# Collections are exact

What a machine names is stated root by root. A collection keeps the live objects
that the named ones reach, as they are, and frees all others; its report counts
them. Nothing is assumed of the graph, of the roots or of the classes, so cycles,
long chains and handles that are not live any more are all included.
-/

namespace Jvm

namespace Execution

/-- What an execution names: the tagged slots below its top, an exception kept
back and its thread object. -/
inductive Names (exec : Execution) : Ref → Prop where
  | slot {index : Nat} {ref : Ref} (below : index < exec.stack.sp)
      (tagged : exec.stack.isRef index = true) (held : exec.stack.loadRef index = some ref) :
      Names exec ref
  | pendingException {ref : Ref} (held : exec.pendingException = some ref) : Names exec ref
  | threadObject {ref : Ref} (held : exec.threadObject = some ref) : Names exec ref

theorem mem_roots (exec : Execution) (ref : Ref) : ref ∈ exec.roots ↔ exec.Names ref := by
  have slots : ref ∈ exec.stack.refs 0 exec.stack.sp ↔
      ∃ index < exec.stack.sp, exec.stack.isRef index = true ∧
        exec.stack.loadRef index = some ref := by
    simp only [Stack.refs, List.mem_filterMap, IndexSet.mem_members]
    constructor
    · rintro ⟨index, ⟨-, below, tagged⟩, held⟩
      exact ⟨index, by omega, tagged, held⟩
    · rintro ⟨index, below, tagged, held⟩
      -- a slot that denotes an object is not zero, so it lies inside the array
      have inside : index < exec.stack.slots.size := by
        apply Nat.lt_of_not_le
        intro beyond
        simp [Stack.loadRef, Stack.raw, Ref.ofSlot, Array.getD_eq_getD_getElem?, beyond] at held
      exact ⟨index, ⟨Nat.zero_le _, by omega, tagged⟩, held⟩
  simp only [roots, List.mem_append, Option.mem_toList, slots]
  constructor
  · rintro ((⟨index, below, tagged, held⟩ | held) | held)
    · exact .slot below tagged held
    · exact .pendingException held
    · exact .threadObject held
  · intro named
    cases named with
    | slot below tagged held => exact .inl (.inl ⟨_, below, tagged, held⟩)
    | pendingException held => exact .inl (.inr held)
    | threadObject held => exact .inr held

end Execution

/-- What a class names: its static fields of reference kind and its object. -/
inductive Class.Names (cls : Class) : Ref → Prop where
  | static {statics : Fields} {slot : UInt16} {ref : Ref} (prepared : cls.statics = some statics)
      (traced : slot ∈ cls.staticRefSlots) (held : statics.getRef slot.toNat = some ref) :
      Names cls ref
  | mirror {ref : Ref} (held : cls.mirror = some ref) : Names cls ref

theorem Class.mem_references (cls : Class) (ref : Ref) : ref ∈ cls.references ↔ cls.Names ref := by
  simp only [references, List.mem_append, Option.mem_toList]
  constructor
  · rintro (member | held)
    · cases prepared : cls.statics with
      | none => simp [prepared] at member
      | some statics =>
          rw [prepared] at member
          obtain ⟨slot, traced, held⟩ := List.mem_filterMap.mp member
          exact .static prepared traced held
    · exact .mirror held
  · intro named
    cases named with
    | static prepared traced held =>
        rw [prepared]
        exact .inl (List.mem_filterMap.mpr ⟨_, traced, held⟩)
    | mirror held => exact .inr held

namespace Machine

/-- Everything that is named from outside the heap, or that the heap keeps. -/
inductive Names (machine : Machine) : Ref → Prop where
  | pending {ref : Ref} (held : ref ∈ machine.heap.pending) : Names machine ref
  | pinned {ref : Ref} (held : ref ∈ machine.heap.pinned) : Names machine ref
  | sticky {index : Nat} {object : Object}
      (place : machine.heap.objects[index]? = some (some object))
      (kept : object.sticky = true) : Names machine (Ref.ofIndex index)
  | interned {text : String} {ref : Ref} (canonical : machine.interned[text]? = some ref) :
      Names machine ref
  | cls {cls : Class} {ref : Ref} (linked : cls ∈ machine.registry.classes)
      (held : cls.Names ref) : Names machine ref
  | outOfMemory {ref : Ref} (held : machine.outOfMemory = some ref) : Names machine ref
  | running {ref : Ref} (held : machine.exec.Names ref) : Names machine ref
  | parked {exec : Execution} {ref : Ref} (waits : exec ∈ machine.parked)
      (held : exec.Names ref) : Names machine ref
  | completed {id : ExecId} {ref : Ref} (kept : (id, .ref (some ref)) ∈ machine.completed) :
      Names machine ref

/-- What is named is named still if the heap is replaced by one that keeps as much. -/
theorem Names.of_heap {machine : Machine} {heap : Heap} {ref : Ref} (named : machine.Names ref)
    (pending : ∀ ref ∈ machine.heap.pending, ref ∈ heap.pending)
    (pinned : ∀ ref ∈ machine.heap.pinned, ref ∈ heap.pinned)
    (sticky : ∀ {index object}, machine.heap.objects[index]? = some (some object) →
      object.sticky = true → { machine with heap }.Names (Ref.ofIndex index)) :
    { machine with heap }.Names ref := by
  cases named with
  | pending held => exact .pending (pending _ held)
  | pinned held => exact .pinned (pinned _ held)
  | sticky place kept => exact sticky place kept
  | interned canonical => exact .interned canonical
  | cls linked held => exact .cls linked held
  | outOfMemory held => exact .outOfMemory held
  | running held => exact .running held
  | parked waits held => exact .parked waits held
  | completed kept => exact .completed kept

theorem mem_stickyRefs (heap : Heap) (ref : Ref) :
    ref ∈ heap.stickyRefs ↔
      ∃ index object, heap.objects[index]? = some (some object) ∧ object.sticky = true ∧
        Ref.ofIndex index = ref := by
  simp only [Heap.stickyRefs, List.mem_filterMap, List.mem_range,
    Array.getD_eq_getD_getElem?]
  constructor
  · rintro ⟨index, inside, found⟩
    rw [Array.getElem?_eq_getElem inside, Option.getD_some] at found
    split at found
    next object place =>
      split at found
      next kept =>
        exact ⟨index, object, by rw [Array.getElem?_eq_getElem inside, place], kept,
          Option.some.inj found⟩
      next => cases found
    next => cases found
  · rintro ⟨index, object, place, kept, named⟩
    obtain ⟨inside, -⟩ := Array.getElem?_eq_some_iff.mp place
    exact ⟨index, inside, by simp [place, kept, named]⟩

theorem mem_values (interned : Std.HashMap String Ref) (ref : Ref) :
    ref ∈ interned.values ↔ ∃ text : String, interned[text]? = some ref := by
  have values : interned.values = interned.toList.map Prod.snd := by
    rw [Std.HashMap.values, Std.HashMap.toList, Std.DHashMap.values, Std.DHashMap.Const.toList,
      Std.DHashMap.Internal.Raw.values_eq_values_toListModel,
      Std.DHashMap.Internal.Raw.Const.toList_eq_toListModel_map,
      Std.Internal.List.values_eq_map, List.map_map]
    rfl
  rw [values, List.mem_map]
  constructor
  · rintro ⟨⟨text, found⟩, member, rfl⟩
    exact ⟨text, Std.HashMap.mem_toList_iff_getElem?_eq_some.mp member⟩
  · rintro ⟨text, canonical⟩
    exact ⟨(text, ref), Std.HashMap.mem_toList_iff_getElem?_eq_some.mpr canonical, rfl⟩

theorem mem_roots (machine : Machine) (ref : Ref) :
    ref ∈ machine.roots ↔ machine.Names ref := by
  simp only [roots, Heap.roots, List.mem_append, mem_stickyRefs, mem_values, List.mem_flatMap,
    Array.mem_toList_iff, Class.mem_references, Option.mem_toList, Execution.mem_roots]
  constructor
  · rintro ((((((((held | held) | ⟨index, object, place, kept, rfl⟩) | ⟨text, canonical⟩) |
      ⟨cls, linked, held⟩) | held) | held) | ⟨exec, waits, held⟩) | member)
    · exact .pending held
    · exact .pinned held
    · exact .sticky place kept
    · exact .interned canonical
    · exact .cls linked held
    · exact .outOfMemory held
    · exact .running held
    · exact .parked waits held
    · obtain ⟨⟨id, value⟩, kept, found⟩ := List.mem_filterMap.mp member
      cases value with
      | ref held =>
          have same : held = some ref := by simpa [Value.ref?] using found
          subst same
          exact .completed kept
      | void | int | long | float | double => simp [Value.ref?] at found
  · intro named
    cases named with
    | pending held | pinned held | outOfMemory held | running held =>
        simp only [held, true_or, or_true]
    | sticky place kept =>
        have sticky : ∃ index object, machine.heap.objects[index]? = some (some object) ∧
            object.sticky = true ∧ Ref.ofIndex index = Ref.ofIndex _ := ⟨_, _, place, kept, rfl⟩
        simp only [sticky, true_or, or_true]
    | interned canonical =>
        have interned : ∃ text : String, machine.interned[text]? = some ref := ⟨_, canonical⟩
        simp only [interned, true_or, or_true]
    | cls linked held =>
        have named : ∃ cls ∈ machine.registry.classes, cls.Names ref := ⟨_, linked, held⟩
        simp only [named, true_or, or_true]
    | parked waits held =>
        have named : ∃ exec ∈ machine.parked, exec.Names ref := ⟨_, waits, held⟩
        simp only [named, true_or, or_true]
    | completed kept =>
        exact .inr (List.mem_filterMap.mpr ⟨_, kept, rfl⟩)

/-- What the names of a machine reach. -/
def Reachable (machine : Machine) : Ref → Prop :=
  machine.heap.Reaches machine.registry.toClassTable machine.Names

theorem reaches_roots_iff (machine : Machine) (ref : Ref) :
    machine.heap.Reaches machine.registry.toClassTable (· ∈ machine.roots) ref ↔
      machine.Reachable ref := by
  have same : (· ∈ machine.roots) = machine.Names :=
    funext fun ref => propext (machine.mem_roots ref)
  rw [same, Reachable]

/-! ## What a collection does -/

/-- The places that a collection marks. -/
def marks (machine : Machine) : Nat → Bool :=
  machine.heap.reachableMarks machine.registry.toClassTable machine.roots

/-- How many objects a collection marks. -/
def markCount (machine : Machine) : Nat :=
  (Heap.mark machine.registry.toClassTable machine.heap.objects.size machine.roots
    (machine.heap, 0)).2

theorem collectGarbage_eq (machine : Machine) :
    machine.collectGarbage =
      ({ marked := machine.markCount
         freed := (machine.heap.unmarked machine.marks).length
         live := (machine.heap.swept machine.marks).liveObjects
         freedBytes := Heap.bytesOf (machine.heap.unmarked machine.marks)
         liveBytes := (machine.heap.swept machine.marks).usedBytes },
        { machine with heap := machine.heap.swept machine.marks }) := by
  have marked : (Heap.mark machine.registry.toClassTable machine.heap.objects.size machine.roots
      (machine.heap, 0)).1 = machine.heap.marking machine.marks :=
    Heap.mark_eq_marking _ _ _ _
  rw [Heap.unmarked, Heap.swept, ← marked]
  rfl

theorem heap_collectGarbage (machine : Machine) :
    machine.collectGarbage.2.heap = machine.heap.swept machine.marks := by
  rw [collectGarbage_eq]

theorem limit_collectGarbage (machine : Machine) :
    machine.collectGarbage.2.heap.limit = machine.heap.limit := by
  rw [collectGarbage_eq]
  rfl

theorem totalAllocated_collectGarbage (machine : Machine) :
    machine.collectGarbage.2.heap.totalAllocated = machine.heap.totalAllocated := by
  rw [collectGarbage_eq]
  rfl

theorem pending_collectGarbage (machine : Machine) :
    machine.collectGarbage.2.heap.pending = machine.heap.pending := by
  rw [collectGarbage_eq]
  rfl

theorem pinned_collectGarbage (machine : Machine) :
    machine.collectGarbage.2.heap.pinned = machine.heap.pinned := by
  rw [collectGarbage_eq]
  rfl

/-- Whether a collection leaves an object at a place: it is kept for ever, or the roots reach the
handle of the place. -/
def Spared (machine : Machine) (index : Nat) (object : Object) : Prop :=
  object.sticky = true ∨ ∃ ref : Ref, ref.index = index ∧ machine.Reachable ref

/-- A handle of a place names the object there if it is kept for ever. -/
theorem names_of_sticky {machine : Machine} {ref : Ref} {object : Object}
    (live : machine.heap.get? ref = some object) (kept : object.sticky = true) :
    machine.Names ref := by
  rw [Heap.get?, Array.getD_eq_getD_getElem?, Option.getD_eq_iff] at live
  obtain place | ⟨_, ⟨⟩⟩ := live
  rw [← ref.ofIndex_index]
  exact .sticky place kept

/-- A live object is spared exactly if it is reachable. -/
theorem spared_index_iff {machine : Machine} {ref : Ref} {object : Object}
    (live : machine.heap.get? ref = some object) :
    machine.Spared ref.index object ↔ machine.Reachable ref := by
  constructor
  · rintro (kept | ⟨other, same, reached⟩)
    · exact .root (names_of_sticky live kept)
    · exact Ref.eq_of_index_eq same ▸ reached
  · intro reached
    exact .inr ⟨ref, rfl, reached⟩

section

variable {machine : Machine} (unmarked : machine.heap.Unmarked)

include unmarked

/-- A place is marked exactly if it holds an object that is reached. -/
theorem marks_eq_true_iff {index : Nat} : machine.marks index = true ↔
    machine.heap.holds index = true ∧ ∃ ref : Ref, ref.index = index ∧ machine.Reachable ref := by
  constructor
  · intro marked
    obtain ⟨ref, object, place, live, reached⟩ :=
      Heap.exists_of_reachableMarks _ _ unmarked marked
    exact ⟨place ▸ Heap.holds_index_of_get? live, ref, place,
      (machine.reaches_roots_iff ref).mp reached⟩
  · rintro ⟨held, ref, rfl, reached⟩
    exact (Heap.reachableMarks_eq_true _ _ unmarked held).mpr
      ((machine.reaches_roots_iff ref).mpr reached)

/-- A sweep leaves what is spared. -/
theorem spares_marks_iff (index : Nat) : machine.heap.spares machine.marks index = true ↔
    ∃ object, machine.heap.objects.getD index none = some object ∧
      machine.Spared index object := by
  rw [Heap.spares, Option.any_eq_true]
  refine exists_congr fun object => and_congr_right fun held => ?_
  have holds : machine.heap.holds index = true := by
    rw [Heap.holds, held, Option.isSome_some]
  rw [Bool.or_eq_true, marks_eq_true_iff unmarked, or_comm, Spared]
  exact or_congr_right (and_iff_right holds)

/-- What a collection leaves at a place is what was there and is spared. -/
theorem getD_objects_collectGarbage {index : Nat} {object : Object} :
    machine.collectGarbage.2.heap.objects.getD index none = some object ↔
      machine.heap.objects.getD index none = some object ∧ machine.Spared index object := by
  have spared := spares_marks_iff unmarked index
  rw [heap_collectGarbage, Heap.getD_objects_swept, Option.bind_eq_some_iff]
  rw [Heap.spares] at spared
  cases held : machine.heap.objects.getD index none with
  | none => simp
  | some found =>
      have clear : found.withMark false = found := by
        rw [Object.withMark, ← unmarked.marked_eq_false held]
      simp only [held, Option.any_some, Option.some.injEq, exists_eq_left'] at spared ⊢
      rw [Option.ite_none_right_eq_some, clear, spared, Option.some.injEq, and_comm]
      exact and_congr_right fun same => same ▸ Iff.rfl

/-- An object is there after a collection exactly if it was there before, as it
is, and is reachable. -/
theorem get?_collectGarbage (ref : Ref) (object : Object) :
    machine.collectGarbage.2.heap.get? ref = some object ↔
      machine.heap.get? ref = some object ∧ machine.Reachable ref := by
  rw [Heap.get?, getD_objects_collectGarbage unmarked, ← Heap.get?]
  exact and_congr_right fun live => spared_index_iff live

/-- As many objects are marked as there are handles of live objects that are reached. -/
theorem markCount_eq :
    machine.markCount = {ref | machine.heap.isLive ref = true ∧ machine.Reachable ref}.ncard := by
  have places : Ref.index '' {ref | machine.heap.isLive ref = true ∧ machine.Reachable ref} =
      ((List.range machine.heap.objects.size).filter machine.marks).toFinset := by
    ext index
    rw [Finset.mem_coe, List.mem_toFinset, List.mem_filter, List.mem_range,
      marks_eq_true_iff unmarked]
    constructor
    · rintro ⟨ref, ⟨live, reached⟩, rfl⟩
      exact ⟨Heap.lt_size_of_holds live, live, ref, rfl, reached⟩
    · rintro ⟨-, held, ref, rfl, reached⟩
      exact ⟨ref, ⟨held, reached⟩, rfl⟩
  have distinct : Function.Injective Ref.index := fun _ _ => Ref.eq_of_index_eq
  rw [← Set.ncard_image_of_injective _ distinct, places, Set.ncard_coe_finset,
    List.toFinset_card_of_nodup (List.nodup_range.filter _), ← List.countP_eq_length_filter]
  exact Heap.count_reachableMarks _ _ unmarked

end

/-- Two arrays that hold each other and a third that nothing names; one of the
two is pinned, and so is a handle that is not live. -/
def ring : Machine :=
  let node (next : Nat) : Object :=
    { cls := ⟨0⟩, hash := 1, body := .array (.refs #[some (Ref.ofIndex next)]) }
  { (default : Machine) with
    heap := {
      objects := #[some (node 1), some (node 0), some (node 0)]
      usedBytes := 60
      limit := 1024
      threshold := 1024
      pinned := [Ref.ofIndex 0, Ref.ofIndex 7] } }

theorem accounted_ring : ring.heap.Accounted where
  unmarked
    | 0 | 1 | 2 | _ + 3 => rfl
  mem_free index := by
    match index with
    | 0 | 1 | 2 => decide
    | index + 3 =>
        have outside : ¬index + 3 < 3 := by omega
        simp [ring, outside]
  nodup_free := List.nodup_nil
  charged := by decide

end Machine

end Jvm
