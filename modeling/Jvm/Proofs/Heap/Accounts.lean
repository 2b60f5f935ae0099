import Mathlib.Algebra.GroupWithZero.Nat
import Mathlib.Data.List.Nodup
import Mathlib.Data.List.Perm.Basic
import Jvm.Proofs.Heap.Reachability

/-!
# The accounts of a heap

A heap counts its objects by the places that are not free and its bytes by a
running sum. Both are compared here with the objects themselves: the accounts of
a heap are right if its free list names each empty place once and its sum is
that of the sizes of its objects, none of which is marked. Sweeping, allocating and every change of an
object that keeps its size keep them right, and sweeping frees exactly the
objects at the places that it is given.
-/

namespace Jvm.Heap

/-- Size of the object at a place; zero if there is none. -/
def sizeAt (heap : Heap) (index : Nat) : Nat :=
  (heap.objects.getD index none).elim 0 Object.size

/-- Number of objects in the arena. -/
def population (heap : Heap) : Nat := (List.range heap.objects.size).countP heap.holds

/-- Bytes that the objects in the arena take. -/
def occupiedBytes (heap : Heap) : Nat := ((List.range heap.objects.size).map heap.sizeAt).sum

/-- The accounts agree with the objects, and no collection is under way: none is marked. -/
structure Accounted (heap : Heap) : Prop where
  unmarked : heap.Unmarked
  mem_free : ∀ index, index ∈ heap.free ↔ index < heap.objects.size ∧ heap.holds index = false
  nodup_free : heap.free.Nodup
  charged : heap.usedBytes = heap.occupiedBytes

theorem countP_eq_add {α : Type} (values : List α) (left right : α → Bool) :
    values.countP left =
      values.countP (fun value => left value && right value) +
        values.countP (fun value => left value && !right value) := by
  induction values with
  | nil => rfl
  | cons value values ih =>
      simp only [List.countP_cons, ih]
      cases left value <;> cases right value <;> simp <;> omega

theorem Accounted.liveObjects_eq {heap : Heap} (accounted : heap.Accounted) :
    heap.liveObjects = heap.population := by
  have empties : heap.free.Perm
      ((List.range heap.objects.size).filter fun index => !heap.holds index) := by
    apply (List.perm_ext_iff_of_nodup accounted.nodup_free
      (List.nodup_range.filter _)).mpr
    intro index
    rw [accounted.mem_free, List.mem_filter, List.mem_range, Bool.not_eq_true']
  have split : heap.objects.size =
      (List.range heap.objects.size).countP heap.holds +
        (List.range heap.objects.size).countP fun index => !heap.holds index := by
    simpa using countP_eq_add (List.range heap.objects.size) (fun _ => true) heap.holds
  rw [liveObjects, empties.length_eq, ← List.countP_eq_length_filter, population]
  omega

/-! ## Sweeping -/

/-- What a sweep leaves of a heap whose objects at some places were marked. -/
def swept (heap : Heap) (marks : Nat → Bool) : Heap := (heap.marking marks).sweep

section Swept

variable (heap : Heap) (marks : Nat → Bool) (index : Nat)

/-- The objects that a sweep frees. -/
def unmarked : List (Nat × Object) := (heap.marking marks).dead

/-- Whether there is an object at a place that a sweep leaves. -/
def spares : Bool :=
  (heap.objects.getD index none).any fun object => marks index || object.sticky

theorem holds_of_spares {heap : Heap} {marks : Nat → Bool} {index : Nat}
    (spared : heap.spares marks index = true) : heap.holds index = true := by
  rw [spares, Option.any_eq_true] at spared
  obtain ⟨object, here, -⟩ := spared
  rw [holds, here, Option.isSome_some]

/-- Whether there is an object at a place that a sweep frees. -/
def isDead : Bool := heap.holds index && !heap.spares marks index

/-- The objects that a sweep frees among those at some places. -/
def unmarkedAmong (places : List Nat) : List (Nat × Object) :=
  places.filterMap fun index =>
    ((heap.marking marks).objects.getD index none).bind fun object =>
      if object.marked || object.sticky then none else some (index, object)

theorem unmarked_eq :
    heap.unmarked marks = heap.unmarkedAmong marks (List.range heap.objects.size) := by
  rw [unmarked, dead, size_objects_marking, unmarkedAmong]

theorem map_fst_unmarkedAmong (places : List Nat) :
    (heap.unmarkedAmong marks places).map Prod.fst = places.filter (heap.isDead marks) := by
  induction places with
  | nil => rfl
  | cons place places ih =>
      rw [unmarkedAmong, List.filterMap_cons, ← unmarkedAmong, List.filter_cons, ← ih,
        getD_objects_marking]
      cases found : heap.objects.getD place none with
      | none => simp [isDead, holds, found]
      | some object =>
          simp only [isDead, holds, spares, found, Object.withMark, Option.map_some,
            Option.bind_some, Option.any_some, Option.isSome_some, Bool.true_and]
          cases marks place || object.sticky <;> rfl

theorem length_unmarkedAmong (places : List Nat) :
    (heap.unmarkedAmong marks places).length = places.countP (heap.isDead marks) := by
  rw [← List.length_map Prod.fst, map_fst_unmarkedAmong, List.countP_eq_length_filter]

theorem bytesOf_unmarkedAmong (places : List Nat) :
    bytesOf (heap.unmarkedAmong marks places) =
      (places.map fun index => if heap.spares marks index then 0 else heap.sizeAt index).sum := by
  induction places with
  | nil => rfl
  | cons place places ih =>
      rw [unmarkedAmong, List.filterMap_cons, ← unmarkedAmong, List.map_cons, List.sum_cons, ← ih,
        getD_objects_marking]
      cases found : heap.objects.getD place none with
      | none => simp [sizeAt, spares, found]
      | some object =>
          simp only [sizeAt, spares, found, Object.withMark, Option.map_some, Option.bind_some,
            Option.any_some, Option.elim_some]
          cases marks place || object.sticky with
          | true => exact (Nat.zero_add _).symm
          | false => rfl

@[simp] theorem size_objects_swept : (heap.swept marks).objects.size = heap.objects.size := by
  rw [swept, sweep, Array.size_map, size_objects_marking]

/-- What a sweep leaves at a place. -/
theorem getD_objects_swept :
    (heap.swept marks).objects.getD index none =
      (heap.objects.getD index none).bind fun object =>
        if marks index || object.sticky then some (object.withMark false) else none := by
  have marked := heap.getD_objects_marking marks index
  rw [Array.getD_eq_getD_getElem?] at marked
  rw [swept, sweep, Array.getD_eq_getD_getElem?, Array.getElem?_map]
  cases place : (heap.marking marks).objects[index]? with
  | none =>
      rw [place, Option.getD_none, eq_comm, Option.map_eq_none_iff] at marked
      rw [marked]
      rfl
  | some found =>
      rw [place, Option.getD_some] at marked
      rw [marked, Option.map_some, Option.getD_some, Option.bind_map]
      rfl

/-- What is found at a place after a sweep was there, but for its mark. -/
theorem exists_of_swept {heap : Heap} {marks : Nat → Bool} {index : Nat} {object : Object}
    (held : (heap.swept marks).objects.getD index none = some object) :
    ∃ found, heap.objects.getD index none = some found ∧ object = found.withMark false := by
  rw [getD_objects_swept, Option.bind_eq_some_iff] at held
  obtain ⟨found, here, left⟩ := held
  exact ⟨found, here, (Option.some.inj (Option.ite_none_right_eq_some.mp left).2).symm⟩

theorem holds_swept : (heap.swept marks).holds index = heap.spares marks index := by
  rw [holds, getD_objects_swept, spares]
  cases heap.objects.getD index none with
  | none => rfl
  | some object =>
      rw [Option.bind_some, Option.any_some]
      cases marks index || object.sticky <;> rfl

theorem sizeAt_swept :
    (heap.swept marks).sizeAt index = if heap.spares marks index then heap.sizeAt index else 0 := by
  rw [sizeAt, getD_objects_swept, spares, sizeAt]
  cases heap.objects.getD index none with
  | none => rfl
  | some object =>
      rw [Option.bind_some, Option.any_some]
      cases marks index || object.sticky <;> rfl

/-- A sweep clears every mark. -/
theorem unmarked_swept : (heap.swept marks).Unmarked := by
  intro index
  rw [markedAt, getD_objects_swept]
  cases heap.objects.getD index none with
  | none => rfl
  | some object =>
      rw [Option.bind_some]
      cases marks index || object.sticky <;> rfl

/-- A sweep frees as many objects as there are fewer afterwards. -/
theorem length_unmarked_add_population :
    (heap.unmarked marks).length + (heap.swept marks).population = heap.population := by
  have split := countP_eq_add (List.range heap.objects.size) heap.holds (heap.spares marks)
  have after : (heap.swept marks).population =
      (List.range heap.objects.size).countP fun index =>
        heap.holds index && heap.spares marks index := by
    rw [population, size_objects_swept]
    refine congrArg (List.countP · _) (funext fun index => ?_)
    rw [holds_swept]
    cases spared : heap.spares marks index with
    | false => rw [Bool.and_false]
    | true => rw [holds_of_spares spared, Bool.and_true]
  rw [unmarked_eq, length_unmarkedAmong, after, population, split]
  exact Nat.add_comm _ _

/-- A sweep frees the bytes by which the objects take less afterwards. -/
theorem bytesOf_unmarked_add_occupiedBytes :
    bytesOf (heap.unmarked marks) + (heap.swept marks).occupiedBytes = heap.occupiedBytes := by
  rw [unmarked_eq, bytesOf_unmarkedAmong, occupiedBytes, size_objects_swept, occupiedBytes]
  induction List.range heap.objects.size with
  | nil => rfl
  | cons place places ih =>
      simp only [List.map_cons, List.sum_cons, sizeAt_swept] at ih ⊢
      split <;> omega

theorem free_swept :
    (heap.swept marks).free =
      ((List.range heap.objects.size).filter (heap.isDead marks)).reverse ++ heap.free := by
  rw [← map_fst_unmarkedAmong, ← unmarked_eq]
  rfl

/-- A sweep keeps the accounts right. -/
theorem Accounted.swept {heap : Heap} (accounted : heap.Accounted) (marks : Nat → Bool) :
    (heap.swept marks).Accounted where
  unmarked := heap.unmarked_swept marks
  mem_free index := by
    rw [free_swept, List.mem_append, List.mem_reverse, List.mem_filter, List.mem_range,
      accounted.mem_free, size_objects_swept, holds_swept, isDead]
    cases spared : heap.spares marks index with
    | true => simp [holds_of_spares spared]
    | false => cases heap.holds index <;> simp
  nodup_free := by
    rw [free_swept]
    refine List.Nodup.append (List.nodup_reverse.mpr (List.nodup_range.filter _))
      accounted.nodup_free ?_
    intro index dead free
    have held := (List.mem_filter.mp (List.mem_reverse.mp dead)).2
    have empty := ((accounted.mem_free index).mp free).2
    simp [isDead, empty] at held
  charged := by
    have bytes := heap.bytesOf_unmarked_add_occupiedBytes marks
    have used : (heap.swept marks).usedBytes =
        heap.usedBytes - bytesOf (heap.unmarked marks) := rfl
    rw [used, accounted.charged]
    omega

end Swept

/-! ## Allocating and changing objects -/

/-- The accounts concern the arena, the free list and the sum only. -/
theorem Accounted.congr {heap other : Heap} (accounted : heap.Accounted)
    (objects : other.objects = heap.objects) (free : other.free = heap.free)
    (used : other.usedBytes = heap.usedBytes) : other.Accounted where
  unmarked index := by
    rw [markedAt, objects]
    exact accounted.unmarked index
  mem_free index := by
    rw [free, holds, objects]
    exact accounted.mem_free index
  nodup_free := free ▸ accounted.nodup_free
  charged := by
    have sizes : other.sizeAt = heap.sizeAt := by
      funext index
      rw [sizeAt, objects, sizeAt]
    rw [used, accounted.charged, occupiedBytes, occupiedBytes, objects, sizes]

/-- An empty heap has right accounts. -/
theorem accounted_of_empty {heap : Heap} (objects : heap.objects = #[]) (free : heap.free = [])
    (used : heap.usedBytes = 0) : heap.Accounted where
  unmarked index := by simp [markedAt, objects]
  mem_free index := by simp [free, objects]
  nodup_free := by simp [free]
  charged := by simp [used, occupiedBytes, objects]

theorem sum_map_add (places : List Nat) (sizes : Nat → Nat) (index bytes : Nat) :
    (places.map fun place => sizes place + if place = index then bytes else 0).sum =
      (places.map sizes).sum + places.count index * bytes := by
  induction places with
  | nil => simp
  | cons place places ih =>
      rw [List.map_cons, List.sum_cons, ih, List.map_cons, List.sum_cons, List.count_cons]
      by_cases same : place = index
      · simp only [same, if_true, beq_self_eq_true, Nat.add_mul, Nat.one_mul]
        omega
      · simp only [same, if_false, beq_iff_eq, Nat.add_zero]
        omega

theorem insert_of_free_eq_nil {heap : Heap} (object : Object) (full : heap.free = []) :
    (heap.insert object).2.objects = heap.objects.push (some object) ∧
      (heap.insert object).2.free = [] := by
  simp [insert, full]

theorem insert_of_free_eq_cons {heap : Heap} (object : Object) {index : Nat} {rest : List Nat}
    (free : heap.free = index :: rest) :
    (heap.insert object).2.objects = heap.objects.setIfInBounds index (some object) ∧
      (heap.insert object).2.free = rest := by
  simp [insert, free]

/-- What is found at a place after an allocation is the new object, or was there. -/
theorem eq_or_held_of_insert {heap : Heap} {object other : Object} {index : Nat}
    (held : (heap.insert object).2.objects.getD index none = some other) :
    other = object ∨ heap.objects.getD index none = some other := by
  simp only [Array.getD_eq_getD_getElem?] at held ⊢
  cases free : heap.free with
  | nil =>
      rw [(insert_of_free_eq_nil object free).1, Array.getElem?_push] at held
      split at held
      · cases held
        exact .inl rfl
      · exact .inr held
  | cons hole rest =>
      rw [(insert_of_free_eq_cons object free).1, Array.getElem?_setIfInBounds] at held
      split at held
      · split at held
        · cases held
          exact .inl rfl
        · cases held
      · exact .inr held

theorem usedBytes_insert (heap : Heap) (object : Object) :
    (heap.insert object).2.usedBytes = heap.usedBytes + object.size := rfl

/-- An allocation keeps the accounts right, whether it takes a free place or a new
one. -/
theorem Accounted.insert {heap : Heap} (accounted : heap.Accounted) {object : Object}
    (fresh : object.marked = false) : (heap.insert object).2.Accounted := by
  have unmarked : (heap.insert object).2.Unmarked := by
    refine unmarked_of_held fun held => ?_
    rcases eq_or_held_of_insert held with rfl | before
    · exact fresh
    · exact accounted.unmarked.marked_eq_false before
  cases free : heap.free with
  | nil =>
      obtain ⟨objects, stillFull⟩ := insert_of_free_eq_nil object free
      have place : ∀ index, (heap.insert object).2.objects.getD index none =
          if index = heap.objects.size then some object else heap.objects.getD index none := by
        intro index
        rw [objects]
        simp only [Array.getD_eq_getD_getElem?, Array.getElem?_push]
        by_cases last : index = heap.objects.size <;> simp [last]
      have size : (heap.insert object).2.objects.size = heap.objects.size + 1 := by
        rw [objects, Array.size_push]
      have full : ∀ index < heap.objects.size, heap.holds index = true := by
        intro index inside
        have noneFree := accounted.mem_free index
        rw [free] at noneFree
        simpa [inside] using noneFree
      refine ⟨unmarked, fun index => ?_, by simp [stillFull], ?_⟩
      · rw [stillFull, size, holds, place]
        by_cases last : index = heap.objects.size
        · simp [last]
        · rw [if_neg last, ← holds]
          simp only [List.not_mem_nil, false_iff, not_and, Bool.not_eq_false]
          intro inside
          exact full index (by omega)
      · have sizes : (List.range heap.objects.size).map (heap.insert object).2.sizeAt =
            (List.range heap.objects.size).map heap.sizeAt := by
          apply List.map_congr_left
          intro index inside
          rw [sizeAt, place, if_neg (Nat.ne_of_lt (List.mem_range.mp inside)), ← sizeAt]
        have last : (heap.insert object).2.sizeAt heap.objects.size = object.size := by
          rw [sizeAt, place, if_pos rfl, Option.elim_some]
        rw [usedBytes_insert, accounted.charged, occupiedBytes, occupiedBytes, size,
          List.range_succ, List.map_append, List.sum_append, sizes, List.map_singleton,
          List.sum_singleton, last]
  | cons hole rest =>
      obtain ⟨objects, left⟩ := insert_of_free_eq_cons object free
      have isFree : hole ∈ heap.free := free ▸ List.mem_cons_self
      obtain ⟨inside, empty⟩ := (accounted.mem_free hole).mp isFree
      have place : ∀ index, (heap.insert object).2.objects.getD index none =
          if index = hole then some object else heap.objects.getD index none := by
        intro index
        rw [objects]
        simp only [Array.getD_eq_getD_getElem?, Array.getElem?_setIfInBounds]
        by_cases same : hole = index
        · subst same
          simp [inside]
        · simp [same, Ne.symm same]
      have size : (heap.insert object).2.objects.size = heap.objects.size := by
        rw [objects, Array.size_setIfInBounds]
      have nodup := accounted.nodup_free
      rw [free, List.nodup_cons] at nodup
      refine ⟨unmarked, fun index => ?_, by rw [left]; exact nodup.2, ?_⟩
      · have before := accounted.mem_free index
        rw [free, List.mem_cons] at before
        rw [left, size, holds, place]
        by_cases same : index = hole
        · subst same
          simp [nodup.1]
        · rw [if_neg same, ← holds, ← before]
          simp [same]
      · have sizes : (heap.insert object).2.sizeAt =
            fun index => heap.sizeAt index + if index = hole then object.size else 0 := by
          funext index
          rw [sizeAt, place]
          by_cases same : index = hole
          · have none : heap.objects.getD hole none = none := by simpa [holds] using empty
            simp [same, sizeAt, none]
          · simp [same, sizeAt]
        have once : (List.range heap.objects.size).count hole = 1 := by
          rw [List.count_range, if_pos inside]
        rw [usedBytes_insert, accounted.charged, occupiedBytes, occupiedBytes, size, sizes,
          sum_map_add, once, Nat.one_mul]

theorem get?_modify (heap : Heap) (ref other : Ref) (change : Object → Object) :
    (heap.modify ref change).get? other =
      if ref = other then (heap.get? other).map change else heap.get? other := by
  rw [get?, getD_objects_modify]
  by_cases same : ref = other
  · rw [if_pos same, if_pos (congrArg Ref.index same).symm, get?]
  · rw [if_neg same, if_neg fun index => same (Ref.eq_of_index_eq index).symm, get?]

end Jvm.Heap
