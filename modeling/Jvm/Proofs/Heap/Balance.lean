import Jvm.Proofs.Heap.Shapes

/-!
# Heaps in balance

A heap is in balance if its accounts are right, what its objects take is below its limit,
and the objects that it allocated are those that are live and those that it freed. Objects
that are written, allocated where they fit and swept keep a heap in balance, and a handle
that is given out is that of no live object as long as there are handles left.
-/

namespace Jvm

theorem Object.size_le (object : Object) : Object.headerSize ≤ object.size :=
  Nat.le_add_right _ _

/-- Zeros take the bytes that their kind is charged for. -/
theorem ArrayData.byteSize_ofSize (kind : Kind) (count : Nat) :
    (ArrayData.ofSize kind count).byteSize = count * kind.size := by
  cases kind <;> simp [ofSize, byteSize, size, elementSize, Kind.size]

namespace Heap

theorem eq_of_objectSize? {payload size : Nat} (charged : objectSize? payload = some size) :
    payload + Object.headerSize = size := by
  rw [objectSize?] at charged
  split at charged
  · exact Option.some.inj charged
  · cases charged

/-! ## What is done to a heap at once -/

/-- Whether a heap has the limit of another one and has counted as many objects. -/
structure SameCounts (before after : Heap) : Prop where
  limit : after.limit = before.limit
  allocated : after.totalAllocated = before.totalAllocated
  freed : after.totalFreed = before.totalFreed

/-- Whether objects are written in the forms that they have and nothing is counted. -/
structure Rewrites (before after : Heap) : Prop
  extends before.Writes after, before.SameCounts after, before.SameForms after

namespace Rewrites

variable {first second third : Heap}

theorem of_objects (objects : second.objects = first.objects) (free : second.free = first.free)
    (used : second.usedBytes = first.usedBytes) (counts : first.SameCounts second) :
    first.Rewrites second :=
  ⟨.of_objects objects free used, counts, .of_objects objects⟩

theorem trans (left : first.Rewrites second) (right : second.Rewrites third) :
    first.Rewrites third where
  toWrites := left.toWrites.trans right.toWrites
  limit := right.limit.trans left.limit
  allocated := right.allocated.trans left.allocated
  freed := right.freed.trans left.freed
  toSameForms := left.toSameForms.trans right.toSameForms

theorem foldl {α : Type} (change : Heap → α → Heap)
    (same : ∀ (heap : Heap) item, heap.Rewrites (change heap item)) (items : List α)
    (heap : Heap) : heap.Rewrites (items.foldl change heap) := by
  induction items generalizing heap with
  | nil => exact .of_objects rfl rfl rfl ⟨rfl, rfl, rfl⟩
  | cons item rest ih => exact .trans (same heap item) (ih _)

theorem refl (heap : Heap) : heap.Rewrites heap := of_objects rfl rfl rfl ⟨rfl, rfl, rfl⟩

theorem clearPending (heap : Heap) : heap.Rewrites heap.clearPending :=
  of_objects rfl rfl rfl ⟨rfl, rfl, rfl⟩

theorem protect (heap : Heap) (ref : Ref) : heap.Rewrites (heap.protect ref) :=
  of_objects rfl rfl rfl ⟨rfl, rfl, rfl⟩

theorem pin (heap : Heap) (ref : Ref) : heap.Rewrites (heap.pin ref) :=
  of_objects rfl rfl rfl ⟨rfl, rfl, rfl⟩

theorem unpin (heap : Heap) (ref : Ref) : heap.Rewrites (heap.unpin ref) :=
  of_objects rfl rfl rfl ⟨rfl, rfl, rfl⟩

theorem setSticky (heap : Heap) (ref : Ref) : heap.Rewrites (heap.setSticky ref) :=
  ⟨.setSticky heap ref, ⟨rfl, rfl, rfl⟩, .setSticky heap ref⟩

theorem modifyFields (heap : Heap) (ref : Ref) {change : Fields → Fields}
    (size : ∀ fields, (change fields).size = fields.size) :
    heap.Rewrites (heap.modifyFields ref change) :=
  ⟨.modifyFields heap ref size, ⟨rfl, rfl, rfl⟩, .modifyFields heap ref size⟩

theorem modifyArray (heap : Heap) (ref : Ref) {change : ArrayData → ArrayData}
    (size : ∀ data, (change data).byteSize = data.byteSize)
    (kind : ∀ data, (change data).kind = data.kind) :
    heap.Rewrites (heap.modifyArray ref change) :=
  ⟨.modifyArray heap ref size, ⟨rfl, rfl, rfl⟩, .modifyArray heap ref kind⟩

end Rewrites

/-- What may be done to a heap at once. -/
inductive Turn (before : Heap) : Heap → Prop
  /-- Objects keep their shapes. -/
  | keeps {after : Heap} (shapes : before.SameShapes after) (counts : before.SameCounts after) :
      Turn before after
  /-- An object that fits below the limit is put into the arena. -/
  | insert {object : Object} (fits : before.fits object.size = true)
      (fresh : object.marked = false) : Turn before (before.insert object).2
  /-- Objects at some places are marked, and all that are not are freed. -/
  | sweep (marks : Nat → Bool) : Turn before (before.swept marks)

/-! ## Balance -/

/-- The accounts of a heap are right, its objects are below its limit, and what it allocated is
live or was freed. There are no more places than objects below the limit. -/
structure Balanced (heap : Heap) : Prop extends heap.Accounted where
  bounded : heap.usedBytes ≤ heap.limit
  counted : heap.population + heap.totalFreed = heap.totalAllocated
  places : heap.objects.size * Object.headerSize ≤ heap.limit

/-- An empty heap is in balance. -/
theorem balanced_of_empty {heap : Heap} (objects : heap.objects = #[]) (free : heap.free = [])
    (used : heap.usedBytes = 0) (counts : heap.totalFreed = heap.totalAllocated) :
    heap.Balanced where
  toAccounted := accounted_of_empty objects free used
  bounded := by simp [used]
  counted := by simp [population, objects, counts]
  places := by simp [objects]

theorem SameShapes.population_eq {before after : Heap} (same : before.SameShapes after) :
    after.population = before.population := by
  have holds : after.holds = before.holds := by
    funext index
    have shape := congrArg Option.isSome (same.objects index)
    rw [Option.isSome_map, Option.isSome_map] at shape
    exact shape
  rw [population, population, same.places, holds]

section Insert

variable {heap : Heap}

/-- No place is free more than once. -/
theorem length_free_le (accounted : heap.Accounted) : heap.free.length ≤ heap.objects.size := by
  have within : heap.free ⊆ List.range heap.objects.size := fun index free =>
    List.mem_range.mpr ((accounted.mem_free index).mp free).1
  simpa using (List.subperm_of_subset accounted.nodup_free within).length_le

theorem population_insert (accounted : heap.Accounted) {object : Object}
    (fresh : object.marked = false) :
    (heap.insert object).2.population = heap.population + 1 := by
  have few := length_free_le accounted
  rw [← (accounted.insert fresh).liveObjects_eq, ← accounted.liveObjects_eq]
  cases free : heap.free with
  | nil =>
      obtain ⟨objects, left⟩ := insert_of_free_eq_nil object free
      rw [liveObjects, objects, left, liveObjects, free, Array.size_push]
      rfl
  | cons hole rest =>
      obtain ⟨objects, left⟩ := insert_of_free_eq_cons object free
      rw [free, List.length_cons] at few
      rw [liveObjects, objects, left, liveObjects, free, Array.size_setIfInBounds,
        List.length_cons]
      omega

/-- Every object takes at least the bytes of its header. -/
theorem population_le_occupiedBytes (heap : Heap) :
    heap.population * Object.headerSize ≤ heap.occupiedBytes := by
  rw [population, occupiedBytes]
  induction List.range heap.objects.size with
  | nil => exact Nat.zero_le _
  | cons place places ih =>
      rw [List.countP_cons, List.map_cons, List.sum_cons, holds, sizeAt, Nat.add_mul]
      cases heap.objects.getD place none with
      | none => simpa using ih
      | some object =>
          have header := object.size_le
          simp only [Option.isSome_some, if_true, Option.elim_some, Nat.one_mul]
          omega

/-- An object that fits below the limit leaves a heap in balance. -/
theorem Balanced.insert (balanced : heap.Balanced) {object : Object}
    (fits : heap.fits object.size = true) (fresh : object.marked = false) :
    (heap.insert object).2.Balanced where
  toAccounted := balanced.toAccounted.insert fresh
  bounded := of_decide_eq_true fits
  counted := by
    have more := population_insert balanced.toAccounted fresh
    have counted := balanced.counted
    change (heap.insert object).2.population + heap.totalFreed = heap.totalAllocated + 1
    omega
  places := by
    have within : heap.usedBytes + object.size ≤ heap.limit := of_decide_eq_true fits
    cases free : heap.free with
    | nil =>
        -- a new place is made where every place is taken
        have full : heap.objects.size = heap.population := by
          rw [← balanced.toAccounted.liveObjects_eq, liveObjects, free]
          rfl
        have taken := heap.population_le_occupiedBytes
        have header := object.size_le
        rw [← balanced.charged, ← full] at taken
        rw [(insert_of_free_eq_nil object free).1, Array.size_push, Nat.add_mul, Nat.one_mul]
        exact Nat.le_trans (Nat.add_le_add taken header) within
    | cons hole rest =>
        rw [(insert_of_free_eq_cons object free).1, Array.size_setIfInBounds]
        exact balanced.places

/-- The handle that is given out is that of the new object and was that of none. -/
theorem get?_insert (accounted : heap.Accounted) (object : Object)
    (room : heap.objects.size < handles) :
    heap.get? (heap.insert object).1 = none ∧
      (heap.insert object).2.get? (heap.insert object).1 = some object := by
  have named : (heap.insert object).1 = Ref.ofIndex (heap.free.headD heap.objects.size) := rfl
  cases free : heap.free with
  | nil =>
      have index := Ref.index_ofIndex room
      rw [named, free, List.headD_nil, get?, get?, index, (insert_of_free_eq_nil object free).1]
      constructor
      · rw [Array.getD_eq_getD_getElem?, Array.getElem?_eq_none (Nat.le_refl _),
          Option.getD_none]
      · rw [Array.getD_eq_getD_getElem?, Array.getElem?_push_size, Option.getD_some]
  | cons hole rest =>
      obtain ⟨inside, empty⟩ := (accounted.mem_free hole).mp (free ▸ List.mem_cons_self)
      have index := Ref.index_ofIndex (Nat.lt_trans inside room)
      rw [named, free, List.headD_cons, get?, get?, index,
        (insert_of_free_eq_cons object free).1]
      constructor
      · simpa [holds] using empty
      · rw [Array.getD_eq_getD_getElem?, Array.getElem?_setIfInBounds_self_of_lt inside,
          Option.getD_some]

end Insert

/-- A sweep leaves a heap in balance. -/
theorem Balanced.swept {heap : Heap} (balanced : heap.Balanced) (marks : Nat → Bool) :
    (heap.swept marks).Balanced where
  toAccounted := balanced.toAccounted.swept marks
  bounded := Nat.le_trans (Nat.sub_le _ _) balanced.bounded
  counted := by
    have fewer := heap.length_unmarked_add_population marks
    have counted := balanced.counted
    change (heap.swept marks).population + (heap.totalFreed + (heap.unmarked marks).length) =
      heap.totalAllocated
    omega
  places := by
    rw [size_objects_swept]
    exact balanced.places

/-- Whatever is done to a heap at once leaves it in balance. -/
theorem Turn.balanced {before after : Heap} (turn : before.Turn after)
    (balanced : before.Balanced) : after.Balanced := by
  cases turn with
  | keeps shapes counts =>
      refine ⟨shapes.accounted balanced.toAccounted, ?_, ?_, ?_⟩
      · rw [shapes.used, counts.limit]
        exact balanced.bounded
      · rw [shapes.population_eq, counts.freed, counts.allocated]
        exact balanced.counted
      · rw [shapes.places, counts.limit]
        exact balanced.places
  | insert fits fresh => exact balanced.insert fits fresh
  | sweep marks => exact balanced.swept marks

/-- The limit is set once and for all. -/
theorem Turn.limit_eq {before after : Heap} (turn : before.Turn after) :
    after.limit = before.limit := by
  cases turn with
  | keeps _ counts => exact counts.limit
  | insert | sweep => rfl

end Heap

end Jvm
