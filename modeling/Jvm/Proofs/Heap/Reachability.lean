import Jvm.Heap.Collect
import Jvm.Proofs.Slots.Cells

/-!
# Marking marks what the roots reach

Reachability is stated on the objects themselves: an object leads to the
references in the reference slots of its class, or to the elements of an array of
references. Marking is then shown to mark the live objects that are reachable,
and no others, for every graph and every list of roots: the objects still to be
visited are all that can keep the marked ones from being closed under the edges,
and there is always room to mark one more. The marks are in the objects, so a heap
that is being marked is told from the one that it was by the places of its marks.
-/

namespace Jvm

theorem Ref.eq_of_index_eq {left right : Ref} (same : left.index = right.index) :
    left = right := by
  have leftPositive : left.slot.toNat ≠ 0 := fun zero =>
    left.slot_ne_zero (UInt32.toNat_inj.mp zero)
  have rightPositive : right.slot.toNat ≠ 0 := fun zero =>
    right.slot_ne_zero (UInt32.toNat_inj.mp zero)
  have slots : left.slot = right.slot := by
    apply UInt32.toNat_inj.mp
    simp only [Ref.index] at same
    omega
  cases left
  cases right
  cases slots
  rfl

/-- Number of handles. A place from there on has none of its own. -/
def Heap.handles : Nat := 2 ^ 32 - 1

theorem Ref.index_ofIndex {index : Nat} (inside : index < Heap.handles) :
    (Ref.ofIndex index).index = index := by
  have small : index + 1 < 2 ^ 32 := Nat.add_lt_of_lt_sub inside
  have value : (UInt32.ofNat (index + 1)).toNat = index + 1 :=
    UInt32.toNat_ofNat_of_lt' small
  have nonzero : UInt32.ofNat (index + 1) ≠ 0 := by
    intro zero
    rw [zero] at value
    exact Nat.succ_ne_zero index value.symm
  rw [Ref.ofIndex, dif_pos nonzero, Ref.index, value, Nat.add_sub_cancel]

theorem Ref.ofIndex_index (ref : Ref) : Ref.ofIndex ref.index = ref := by
  have inside : ref.index < Heap.handles := by
    have small := ref.slot.toNat_lt
    rw [Ref.index, Heap.handles]
    omega
  exact Ref.eq_of_index_eq (Ref.index_ofIndex inside)

/-- The references that an object leads to, by the layout of its class. -/
inductive Object.Holds (table : ClassTable) (object : Object) : Ref → Prop where
  | field {fields : Fields} {cls : Class} {slot : UInt16} {ref : Ref}
      (body : object.body = .instance fields) (linked : table.class? object.cls = some cls)
      (traced : slot ∈ cls.refSlots) (held : fields.getRef slot.toNat = some ref) :
      Holds table object ref
  | element {elements : Array (Option Ref)} {ref : Ref}
      (body : object.body = .array (.refs elements)) (held : some ref ∈ elements) :
      Holds table object ref

namespace Heap

/-- What roots reach through the live objects of a heap. A handle that is not
live leads nowhere. -/
inductive Reaches (heap : Heap) (table : ClassTable) (roots : Ref → Prop) : Ref → Prop where
  | root {ref : Ref} (isRoot : roots ref) : Reaches heap table roots ref
  | edge {source ref : Ref} {object : Object} (reached : Reaches heap table roots source)
      (live : heap.get? source = some object) (held : object.Holds table ref) :
      Reaches heap table roots ref

theorem mem_edges (table : ClassTable) (object : Object) (ref : Ref) :
    ref ∈ edges table object ↔ object.Holds table ref := by
  constructor
  · intro member
    rw [edges, Object.references] at member
    split at member
    next fields body =>
      obtain ⟨slot, traced, held⟩ := List.mem_filterMap.mp member
      cases linked : table.class? object.cls with
      | none => simp [linked] at traced
      | some cls =>
          rw [linked] at traced
          exact .field body linked traced held
    next data body =>
      cases data <;> simp only [ArrayData.references, List.not_mem_nil] at member
      obtain ⟨element, held, rfl⟩ := List.mem_filterMap.mp member
      exact .element body (Array.mem_toList_iff.mp held)
  · intro held
    rw [edges, Object.references]
    cases held with
    | field body linked traced held =>
        rw [body, linked]
        exact List.mem_filterMap.mpr ⟨_, traced, held⟩
    | element body held =>
        rw [body]
        exact List.mem_filterMap.mpr ⟨_, Array.mem_toList_iff.mpr held, rfl⟩

/-! ## Places -/

/-- Whether a place of the arena holds an object. -/
def holds (heap : Heap) (index : Nat) : Bool := (heap.objects.getD index none).isSome

theorem lt_size_of_holds {heap : Heap} {index : Nat} (held : heap.holds index = true) :
    index < heap.objects.size := by
  apply Nat.lt_of_not_le
  intro beyond
  simp [holds, Array.getD_eq_getD_getElem?, beyond] at held

theorem holds_index_of_get? {heap : Heap} {ref : Ref} {object : Object}
    (live : heap.get? ref = some object) : heap.holds ref.index = true := by
  rw [get?] at live
  rw [holds, live, Option.isSome_some]

theorem getD_objects_modify (heap : Heap) (ref : Ref) (change : Object → Object) (index : Nat) :
    (heap.modify ref change).objects.getD index none =
      if index = ref.index then (heap.objects.getD index none).map change
      else heap.objects.getD index none := by
  simp only [Heap.modify, Array.getD_eq_getD_getElem?, Array.getElem?_modify]
  by_cases same : ref.index = index
  · cases heap.objects[index]? <;> simp [same]
  · simp [same, Ne.symm same]

/-- Heaps that differ in their objects at most are the same if these are. -/
theorem eq_of_getD_objects {left right : Heap}
    (aside : left = { right with objects := left.objects })
    (size : left.objects.size = right.objects.size)
    (objects : ∀ index, left.objects.getD index none = right.objects.getD index none) :
    left = right := by
  have same : left.objects = right.objects := by
    apply Array.ext size
    intro index before after
    have place := objects index
    simpa [Array.getD_eq_getD_getElem?, before, after] using place
  rw [aside, same]

end Heap

/-! ## Marks -/

/-- An object with its mark set or cleared. -/
def Object.withMark (object : Object) (marked : Bool) : Object := { object with marked }

namespace Heap

/-- Whether the object at a place, if there is one, is marked. -/
def markedAt (heap : Heap) (index : Nat) : Bool :=
  (heap.objects.getD index none).any Object.marked

/-- Whether no object is marked, as it is between two collections. -/
def Unmarked (heap : Heap) : Prop := ∀ index, heap.markedAt index = false

/-- A heap whose objects at some places are marked, and no others. -/
def marking (heap : Heap) (marks : Nat → Bool) : Heap :=
  { heap with objects := heap.objects.mapIdx fun index place =>
      place.map fun object => object.withMark (marks index) }

section

variable (heap : Heap) (marks : Nat → Bool)

@[simp] theorem size_objects_marking : (heap.marking marks).objects.size = heap.objects.size :=
  Array.size_mapIdx

theorem getD_objects_marking (index : Nat) :
    (heap.marking marks).objects.getD index none =
      (heap.objects.getD index none).map fun object => object.withMark (marks index) := by
  simp only [marking, Array.getD_eq_getD_getElem?, Array.getElem?_mapIdx]
  cases heap.objects[index]? <;> rfl

theorem get?_marking (ref : Ref) :
    (heap.marking marks).get? ref =
      (heap.get? ref).map fun object => object.withMark (marks ref.index) :=
  heap.getD_objects_marking marks ref.index

theorem markedAt_marking (index : Nat) :
    (heap.marking marks).markedAt index = (heap.holds index && marks index) := by
  rw [markedAt, getD_objects_marking, holds]
  cases heap.objects.getD index none <;> rfl

/-- A heap has the marks that its objects have. -/
theorem marking_markedAt : heap.marking heap.markedAt = heap := by
  refine eq_of_getD_objects rfl (heap.size_objects_marking _) fun index => ?_
  rw [getD_objects_marking, markedAt]
  cases heap.objects.getD index none <;> rfl

/-- Marks that are set anew replace those that were there. -/
theorem marking_marking (others : Nat → Bool) :
    (heap.marking marks).marking others = heap.marking others := by
  refine eq_of_getD_objects rfl ?_ fun index => ?_
  · rw [size_objects_marking, size_objects_marking, size_objects_marking]
  · rw [getD_objects_marking, getD_objects_marking, getD_objects_marking, Option.map_map]
    rfl

theorem unmarked_of_held {heap : Heap}
    (clear : ∀ {index object}, heap.objects.getD index none = some object →
      object.marked = false) : heap.Unmarked := by
  intro index
  rw [markedAt]
  cases held : heap.objects.getD index none with
  | none => rfl
  | some object => exact clear held

theorem Unmarked.marked_eq_false {heap : Heap} (unmarked : heap.Unmarked) {index : Nat}
    {object : Object} (held : heap.objects.getD index none = some object) :
    object.marked = false := by
  have clear := unmarked index
  rw [markedAt, held] at clear
  exact clear

theorem Unmarked.marking_false {heap : Heap} (unmarked : heap.Unmarked) :
    heap.marking (fun _ => false) = heap := by
  rw [← funext unmarked, marking_markedAt]

/-- One more object is marked. -/
theorem setMarked_marking (ref : Ref) :
    (heap.marking marks).setMarked ref =
      heap.marking fun index => index == ref.index || marks index := by
  refine eq_of_getD_objects rfl ?_ fun index => ?_
  · rw [setMarked, modify, Array.size_modify, size_objects_marking, size_objects_marking]
  · rw [setMarked, getD_objects_modify, getD_objects_marking, getD_objects_marking]
    by_cases same : index = ref.index
    · rw [if_pos same, Option.map_map, beq_iff_eq.mpr same, Bool.true_or]
      rfl
    · rw [if_neg same, beq_eq_false_iff_ne.mpr same, Bool.false_or]

/-- Marking changes nothing but marks. -/
theorem mark_eq_marking (table : ClassTable) (fuel : Nat) (worklist : List Ref)
    (now : Heap × Nat) :
    (mark table fuel worklist now).1 = now.1.marking (mark table fuel worklist now).1.markedAt := by
  fun_induction mark table fuel worklist now with
  | case1 fuel now => exact now.1.marking_markedAt.symm
  | case2 fuel ref rest heap count gone ih => exact ih
  | case3 fuel ref rest heap count object live marked ih => exact ih
  | case4 ref rest heap count object live fresh => exact heap.marking_markedAt.symm
  | case5 ref rest heap count object live fresh fuel ih =>
      -- the mark just set is replaced like all others
      have set := heap.setMarked_marking heap.markedAt ref
      rw [heap.marking_markedAt] at set
      rw [set, marking_marking] at ih
      rw [set]
      exact ih

end

/-- How many places below a bound are marked. -/
def markedBelow (marks : Nat → Bool) (bound : Nat) : Nat := (List.range bound).countP marks

theorem countP_or_eq {marks : Nat → Bool} {index : Nat} (fresh : marks index = false)
    (places : List Nat) :
    places.countP (fun place => place == index || marks place) =
      places.countP marks + places.count index := by
  induction places with
  | nil => rfl
  | cons place places ih =>
      rw [List.countP_cons, List.countP_cons, List.count_cons, ih]
      by_cases same : place = index
      · subst same
        simp [fresh]
        omega
      · simp [same]
        omega

/-- Marking a new place counts it once. -/
theorem markedBelow_or_eq {marks : Nat → Bool} {index bound : Nat}
    (fresh : marks index = false) (inside : index < bound) :
    markedBelow (fun place => place == index || marks place) bound =
      markedBelow marks bound + 1 := by
  have once : (List.range bound).count index = 1 := by
    rw [List.count_range, if_pos inside]
  rw [markedBelow, countP_or_eq fresh, once, markedBelow]

/-- When as many places are marked as there are, each one is. -/
theorem eq_true_of_le_markedBelow {marks : Nat → Bool} {index bound : Nat}
    (full : bound ≤ markedBelow marks bound) (inside : index < bound) :
    marks index = true := by
  have all : (List.range bound).countP marks = (List.range bound).length := by
    apply Nat.le_antisymm List.countP_le_length
    rw [List.length_range]
    exact full
  exact List.countP_eq_length.mp all index (List.mem_range.mpr inside)

/-! ## The worklist -/

/-- What holds between two visits: every mark is on a live object that the roots
reach, the marks are counted, there is fuel for all that are not marked yet, and
what a marked object leads to is marked unless it is still to be visited. -/
structure Marking (heap : Heap) (table : ClassTable) (roots : Ref → Prop) (fuel : Nat)
    (worklist : List Ref) (marks : Nat → Bool) (count : Nat) : Prop where
  sound : ∀ index, marks index = true →
    ∃ ref object, ref.index = index ∧ heap.get? ref = some object ∧ heap.Reaches table roots ref
  counted : count = markedBelow marks heap.objects.size
  fueled : heap.objects.size ≤ fuel + count
  reached : ∀ ref ∈ worklist, heap.Reaches table roots ref
  closed : ∀ source object ref, marks source.index = true →
    heap.get? source = some object → object.Holds table ref → heap.isLive ref = true →
    marks ref.index = true ∨ ref ∈ worklist

namespace Marking

variable {heap : Heap} {table : ClassTable} {roots : Ref → Prop} {fuel : Nat} {ref : Ref}
  {rest : List Ref} {marks : Nat → Bool} {count : Nat}

/-- A handle that is not live, or whose object is marked, can be passed over. -/
theorem skip (marking : Marking heap table roots fuel (ref :: rest) marks count)
    (settled : heap.isLive ref = true → marks ref.index = true) :
    Marking heap table roots fuel rest marks count where
  sound := marking.sound
  counted := marking.counted
  fueled := marking.fueled
  reached other member := marking.reached other (List.mem_cons_of_mem ref member)
  closed source object child marked live held childLive := by
    cases marking.closed source object child marked live held childLive with
    | inl childMarked => exact .inl childMarked
    | inr member =>
        cases List.mem_cons.mp member with
        | inl same =>
            subst same
            exact .inl (settled childLive)
        | inr later => exact .inr later

/-- Marking a new object leaves what it leads to for later. -/
theorem visit {object : Object}
    (marking : Marking heap table roots (fuel + 1) (ref :: rest) marks count)
    (live : heap.get? ref = some object) (fresh : marks ref.index = false) :
    Marking heap table roots fuel (edges table object ++ rest)
      (fun index => index == ref.index || marks index) (count + 1) where
  sound index marked := by
    rw [Bool.or_eq_true, beq_iff_eq] at marked
    cases marked with
    | inl same =>
        exact ⟨ref, object, same.symm, live, marking.reached ref List.mem_cons_self⟩
    | inr before => exact marking.sound index before
  counted := by
    have inside := lt_size_of_holds (holds_index_of_get? live)
    rw [markedBelow_or_eq fresh inside, marking.counted]
  fueled := by
    have := marking.fueled
    omega
  reached other member := by
    cases List.mem_append.mp member with
    | inl held =>
        have source := marking.reached ref List.mem_cons_self
        exact .edge source live ((mem_edges table object other).mp held)
    | inr later => exact marking.reached other (List.mem_cons_of_mem ref later)
  closed source sourceObject child marked sourceLive held childLive := by
    rw [Bool.or_eq_true, beq_iff_eq] at marked
    cases marked with
    | inl same =>
        -- the object just marked: what it holds is on the worklist now
        rw [get?, same, ← get?, live] at sourceLive
        cases sourceLive
        exact .inr (List.mem_append_left rest ((mem_edges table object child).mpr held))
    | inr before =>
        cases marking.closed source sourceObject child before sourceLive held childLive with
        | inl childMarked =>
            left
            rw [childMarked, Bool.or_true]
        | inr member =>
            cases List.mem_cons.mp member with
            | inl same =>
                subst same
                left
                rw [beq_self_eq_true, Bool.true_or]
            | inr later => exact .inr (List.mem_append_right _ later)

/-- Fuel never runs out before a live object that is not marked. -/
theorem marked_of_fuel_eq_zero {object : Object}
    (marking : Marking heap table roots 0 (ref :: rest) marks count)
    (live : heap.get? ref = some object) : marks ref.index = true := by
  have inside := lt_size_of_holds (holds_index_of_get? live)
  have fueled := marking.fueled
  rw [marking.counted, Nat.zero_add] at fueled
  exact eq_true_of_le_markedBelow fueled inside

end Marking

/-- Marking runs until nothing is left to be visited, loses no mark, and marks
every live object of the worklist. -/
theorem marking_mark {heap : Heap} {table : ClassTable} {roots : Ref → Prop} {fuel : Nat}
    {worklist : List Ref} {marks : Nat → Bool} {now : Heap × Nat}
    (same : now.1 = heap.marking marks)
    (marking : Marking heap table roots fuel worklist marks now.2) :
    ∃ final, (mark table fuel worklist now).1 = heap.marking final ∧
      (∃ left, Marking heap table roots left [] final (mark table fuel worklist now).2) ∧
      (∀ index, marks index = true → final index = true) ∧
      ∀ ref ∈ worklist, heap.isLive ref = true → final ref.index = true := by
  fun_induction mark table fuel worklist now generalizing marks with
  | case1 fuel now =>
      exact ⟨marks, same, ⟨fuel, marking⟩, fun _ marked => marked, fun _ member => nomatch member⟩
  | case2 fuel ref rest now count gone ih =>
      obtain rfl : now = heap.marking marks := same
      have notLive : heap.isLive ref = true → marks ref.index = true := by
        intro live
        rw [get?_marking, Option.map_eq_none_iff] at gone
        simp [isLive, gone] at live
      obtain ⟨final, made, done, kept, listed⟩ := ih rfl (marking.skip notLive)
      refine ⟨final, made, done, kept, fun other member live => ?_⟩
      cases List.mem_cons.mp member with
      | inl same =>
          subst same
          exact kept _ (notLive live)
      | inr later => exact listed other later live
  | case3 fuel ref rest now count object live marked ih =>
      obtain rfl : now = heap.marking marks := same
      rw [get?_marking, Option.map_eq_some_iff] at live
      obtain ⟨unmarked, -, rfl⟩ := live
      obtain ⟨final, made, done, kept, listed⟩ := ih rfl (marking.skip fun _ => marked)
      refine ⟨final, made, done, kept, fun other member otherLive => ?_⟩
      cases List.mem_cons.mp member with
      | inl same =>
          subst same
          exact kept _ marked
      | inr later => exact listed other later otherLive
  | case4 ref rest now count object live fresh =>
      obtain rfl : now = heap.marking marks := same
      rw [get?_marking, Option.map_eq_some_iff] at live
      obtain ⟨unmarked, live, rfl⟩ := live
      exact absurd (marking.marked_of_fuel_eq_zero live) fresh
  | case5 ref rest now count object live fresh fuel ih =>
      obtain rfl : now = heap.marking marks := same
      rw [get?_marking, Option.map_eq_some_iff] at live
      obtain ⟨unmarked, live, rfl⟩ := live
      have visited := marking.visit live (Bool.eq_false_iff.mpr fresh)
      obtain ⟨final, made, done, kept, listed⟩ := ih (heap.setMarked_marking marks ref) visited
      refine ⟨final, made, done, fun index marked => kept index ?_, fun other member otherLive => ?_⟩
      · rw [marked, Bool.or_true]
      · cases List.mem_cons.mp member with
        | inl same =>
            subst same
            exact kept _ (by rw [beq_self_eq_true, Bool.true_or])
        | inr later => exact listed other (List.mem_append_right _ later) otherLive

/-- The places that a collection from a list of roots marks. -/
def reachableMarks (heap : Heap) (table : ClassTable) (roots : List Ref) : Nat → Bool :=
  (mark table heap.objects.size roots (heap, 0)).1.markedAt

section

variable {heap : Heap} (table : ClassTable) (roots : List Ref)

theorem marking_start :
    Marking heap table (· ∈ roots) heap.objects.size roots (fun _ => false) 0 where
  sound index marked := by simp at marked
  counted := (List.countP_eq_zero.mpr fun _ _ => Bool.false_ne_true).symm
  fueled := Nat.le_refl _
  reached _ member := .root member
  closed _ _ _ marked := by simp at marked

variable (unmarked : heap.Unmarked)

include unmarked

/-- Where nothing was marked, marking ends with nothing left to be visited and with every live
root marked. -/
theorem marking_reachableMarks :
    (∃ left, Marking heap table (· ∈ roots) left [] (heap.reachableMarks table roots)
      (mark table heap.objects.size roots (heap, 0)).2) ∧
      ∀ ref ∈ roots, heap.isLive ref = true →
        heap.reachableMarks table roots ref.index = true := by
  have start : ((heap, 0) : Heap × Nat).1 = heap.marking fun _ => false :=
    unmarked.marking_false.symm
  obtain ⟨final, made, ⟨fuel, marking⟩, -, listed⟩ :=
    marking_mark start (marking_start table roots)
  have same : heap.reachableMarks table roots = final := by
    funext index
    rw [reachableMarks, made, markedAt_marking]
    cases marked : final index with
    | false => exact Bool.and_false _
    | true =>
        obtain ⟨ref, object, rfl, live, -⟩ := marking.sound index marked
        rw [holds_index_of_get? live, Bool.and_true]
  rw [same]
  exact ⟨⟨fuel, marking⟩, listed⟩

/-- A live object is marked exactly if the roots reach it. -/
theorem reachableMarks_eq_true {ref : Ref} (live : heap.isLive ref = true) :
    heap.reachableMarks table roots ref.index = true ↔ heap.Reaches table (· ∈ roots) ref := by
  obtain ⟨⟨_, marking⟩, listed⟩ := marking_reachableMarks table roots unmarked
  constructor
  · intro marked
    obtain ⟨other, _, same, _, reached⟩ := marking.sound _ marked
    have equal : other = ref := Ref.eq_of_index_eq same
    exact equal ▸ reached
  · intro reached
    induction reached with
    | root isRoot => exact listed _ isRoot live
    | edge _ sourceLive held ih =>
        have marked := ih (by simp [isLive, sourceLive])
        cases marking.closed _ _ _ marked sourceLive held live with
        | inl done => exact done
        | inr left => exact nomatch left

/-- Only the places of live objects that the roots reach are marked. -/
theorem exists_of_reachableMarks {index : Nat}
    (marked : heap.reachableMarks table roots index = true) :
    ∃ ref object, ref.index = index ∧ heap.get? ref = some object ∧
      heap.Reaches table (· ∈ roots) ref := by
  obtain ⟨⟨_, marking⟩, _⟩ := marking_reachableMarks table roots unmarked
  exact marking.sound _ marked

/-- The count is the number of marks. -/
theorem count_reachableMarks :
    (mark table heap.objects.size roots (heap, 0)).2 =
      markedBelow (heap.reachableMarks table roots) heap.objects.size := by
  obtain ⟨⟨_, marking⟩, _⟩ := marking_reachableMarks table roots unmarked
  exact marking.counted

end

end Heap

end Jvm
