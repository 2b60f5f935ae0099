import Jvm.Machine.Basic
import Jvm.Proofs.Heap.Balance

/-!
# Elements that are copied

Elements are copied to other places of an array, from another array of its kind or from the
array itself, whether the two ranges overlap or not. What the array becomes is said once, by what
is read at each place afterwards; elements that are written one after the other come to the same
as elements that are written at once. A heap in which the elements of one array are replaced is
otherwise as it was.
-/

namespace Jvm

namespace ArrayData

/-! ## Writing a list of elements -/

section

variable {α : Type} {target source : Array α} {place start count : Nat} {elements : List α}

/-- Elements are read where they were written, and what was there before is read elsewhere. -/
theorem getElem?_splice (room : place + elements.length ≤ target.size) (index : Nat) :
    (splice target place elements)[index]? =
      if place ≤ index ∧ index < place + elements.length then elements[index - place]?
      else target[index]? := by
  induction elements generalizing target place with
  | nil => rw [splice, if_neg (by simp only [List.length_nil]; omega)]
  | cons element rest ih =>
      rw [List.length_cons] at room ⊢
      have later : place + 1 + rest.length ≤ (target.setIfInBounds place element).size := by
        rw [Array.size_setIfInBounds]
        omega
      rw [splice, ih later, Array.getElem?_setIfInBounds]
      rcases Nat.lt_trichotomy index place with before | rfl | after
      · rw [if_neg (by omega), if_neg (by omega), if_neg (by omega)]
      · rw [if_neg (by omega), if_pos rfl, if_pos (by omega), if_pos (by omega), Nat.sub_self,
          List.getElem?_cons_zero]
      · have behind : index - place = index - (place + 1) + 1 := by omega
        rw [behind, List.getElem?_cons_succ]
        by_cases within : index < place + 1 + rest.length
        · rw [if_pos (by omega), if_pos (by omega)]
        · rw [if_neg (by omega), if_neg (by omega), if_neg (by omega)]

/-- A range of elements arrives as it was read. -/
theorem getElem?_transfer_add (room : place + count ≤ target.size)
    (inside : start + count ≤ source.size) {offset : Nat} (below : offset < count) :
    (transfer target place source start count)[place + offset]? = source[start + offset]? := by
  have length : (source.extract start (start + count)).toList.length = count := by
    rw [Array.length_toList, Array.size_extract]
    omega
  rw [transfer, getElem?_splice (by rw [length]; exact room), length, if_pos (by omega),
    Nat.add_sub_cancel_left, Array.getElem?_toList, Array.getElem?_extract, if_pos (by omega)]

theorem getElem?_transfer_of_outside (room : place + count ≤ target.size)
    (inside : start + count ≤ source.size) {index : Nat}
    (outside : index < place ∨ place + count ≤ index) :
    (transfer target place source start count)[index]? = target[index]? := by
  have length : (source.extract start (start + count)).toList.length = count := by
    rw [Array.length_toList, Array.size_extract]
    omega
  rw [transfer, getElem?_splice (by rw [length]; exact room), length, if_neg (by omega)]

end

/-! ## Copies -/

/-- Whether an array has become what it was before with `count` elements of another one, read
from `start` on, in it from `place` on. -/
structure Copied (source : ArrayData) (start : Nat) (before : ArrayData) (place count : Nat)
    (after : ArrayData) : Prop where
  kind : after.kind = before.kind
  size : after.size = before.size
  inside : ∀ offset < count, after.get? (place + offset) = source.get? (start + offset)
  outside : ∀ index, index < place ∨ place + count ≤ index → after.get? index = before.get? index

section

variable {source target : ArrayData} {place start count : Nat}

/-- Elements of any sort that are copied at once. -/
theorem copied_transfer {α : Type} {wrap : Array α → ArrayData} {read : α → Value}
    (kind : ∀ items others, (wrap items).kind = (wrap others).kind)
    (size : ∀ items, (wrap items).size = items.size)
    (get? : ∀ items index, (wrap items).get? index = items[index]?.map read)
    {source target : Array α} (room : place + count ≤ target.size)
    (inside : start + count ≤ source.size) :
    (wrap source).Copied start (wrap target) place count
      (wrap (transfer target place source start count)) where
  kind := kind _ _
  size := by rw [size, size, transfer, size_splice]
  inside offset below := by rw [get?, get?, getElem?_transfer_add room inside below]
  outside index apart := by rw [get?, get?, getElem?_transfer_of_outside room inside apart]

/-- Elements are copied at once. -/
theorem copied_copyFrom? (same : target.kind = source.kind) (room : place + count ≤ target.size)
    (inside : start + count ≤ source.size) :
    source.Copied start target place count
      ((target.copyFrom? place source start count).getD target) := by
  cases target <;> cases source <;> cases same
  all_goals
    exact copied_transfer (fun _ _ => rfl) (fun _ => rfl) (fun _ _ => rfl) room inside

theorem copyWithin_eq (data : ArrayData) (start place count : Nat) :
    data.copyWithin start place count = (data.copyFrom? place data start count).getD data := by
  cases data <;> rfl

/-- Nothing is copied. -/
theorem Copied.refl (source target : ArrayData) (start place : Nat) :
    source.Copied start target place 0 target :=
  ⟨rfl, rfl, fun _ below => absurd below (Nat.not_lt_zero _), fun _ _ => rfl⟩

theorem byteSize_eq_of_kind {other : ArrayData} (kind : target.kind = other.kind)
    (size : target.size = other.size) : target.byteSize = other.byteSize := by
  have elements : target.elementSize = other.elementSize := by
    cases target <;> cases other <;> first
      | rfl
      | cases kind
  rw [byteSize, byteSize, size, elements]

end

end ArrayData

/-! ## Replacing the elements of an array -/

namespace Object

variable {object : Object} {data : ArrayData}

theorem array?_eq_some_iff : object.array? = some data ↔ object.body = .array data := by
  rw [array?]
  split <;> simp_all

theorem modifyArray_eq (array : object.array? = some data) (change : ArrayData → ArrayData) :
    object.modifyArray change = { object with body := .array (change data) } := by
  obtain ⟨cls, hash, body, sticky, monitor⟩ := object
  cases array?_eq_some_iff.mp array
  rfl

end Object

namespace Heap

variable {heap : Heap} {ref : Ref} {data : ArrayData}

theorem array?_eq_some_iff : heap.array? ref = some data ↔
    ∃ object, heap.get? ref = some object ∧ object.array? = some data :=
  Option.bind_eq_some_iff

/-- Only what becomes of the object that is there matters. -/
theorem modify_congr {change other : Object → Object}
    (same : ∀ object, heap.get? ref = some object → change object = other object) :
    heap.modify ref change = heap.modify ref other := by
  have objects : (heap.modify ref change).objects = (heap.modify ref other).objects := by
    refine Array.ext_getElem? fun index => ?_
    simp only [modify, Array.getElem?_modify]
    split
    next here =>
      subst here
      cases found : heap.objects[ref.index]? with
      | none => rfl
      | some place =>
          cases place with
          | none => rfl
          | some object =>
              have live : heap.get? ref = some object := by
                rw [get?, Array.getD_eq_getD_getElem?, found, Option.getD_some]
              exact congrArg (fun object => some (some object)) (same object live)
    next => rfl
  exact congrArg (fun objects => { heap with objects }) objects

theorem modify_modify (change other : Object → Object) :
    (heap.modify ref change).modify ref other = heap.modify ref fun object =>
      other (change object) := by
  have objects : ((heap.modify ref change).modify ref other).objects =
      (heap.modify ref fun object => other (change object)).objects := by
    refine Array.ext_getElem? fun index => ?_
    simp only [modify, Array.getElem?_modify]
    split
    · rw [Option.map_map]
      exact congrArg (Option.map · _) (funext fun place => Option.map_map _ _ place)
    · rfl
  exact congrArg (fun objects => { heap with objects }) objects

theorem modify_id : heap.modify ref (fun object => object) = heap := by
  have objects : (heap.modify ref fun object => object).objects = heap.objects := by
    refine Array.ext_getElem? fun index => ?_
    simp only [modify, Array.getElem?_modify, Option.map_id_fun', id, ite_self]
  exact congrArg (fun objects => { heap with objects }) objects

end Heap

namespace Machine

/-- A machine with other elements in an array. -/
def putArray (machine : Machine) (target : Ref) (data : ArrayData) : Machine :=
  machine.modifyHeap fun heap => heap.modifyArray target fun _ => data

variable {machine : Machine} {target other : Ref} {data old : ArrayData}

section

variable (array : machine.heap.array? target = some old)

include array

/-- Elements that are changed are replaced by what they are changed to. -/
theorem modifyArray_eq_putArray (change : ArrayData → ArrayData) :
    machine.modifyHeap (fun heap => heap.modifyArray target change) =
      machine.putArray target (change old) := by
  obtain ⟨object, live, held⟩ := Heap.array?_eq_some_iff.mp array
  have same : machine.heap.modifyArray target change =
      machine.heap.modifyArray target fun _ => change old := by
    refine Heap.modify_congr fun there found => ?_
    cases live.symm.trans found
    rw [Object.modifyArray_eq held, Object.modifyArray_eq held]
  exact congrArg (fun heap => { machine with heap }) same

theorem putArray_self : machine.putArray target old = machine := by
  obtain ⟨object, live, held⟩ := Heap.array?_eq_some_iff.mp array
  have same : machine.heap.modifyArray target (fun _ => old) = machine.heap := by
    refine (Heap.modify_congr fun there found => ?_).trans Heap.modify_id
    cases live.symm.trans found
    rw [Object.modifyArray_eq held, ← Object.array?_eq_some_iff.mp held]
  exact congrArg (fun heap => { machine with heap }) same

theorem array?_putArray : (machine.putArray target data).heap.array? target = some data := by
  obtain ⟨object, live, held⟩ := Heap.array?_eq_some_iff.mp array
  have stored : (machine.putArray target data).heap.get? target =
      some { object with body := .array data } := by
    change (machine.heap.modify target _).get? target = _
    rw [Heap.get?_modify, if_pos rfl, live, Option.map_some, Object.modifyArray_eq held]
  exact Heap.array?_eq_some_iff.mpr ⟨_, stored, rfl⟩

/-- Elements of the same kind and as many take the room of those that they replace. -/
theorem rewrites_putArray (kind : data.kind = old.kind) (size : data.size = old.size) :
    machine.heap.Rewrites (machine.putArray target data).heap := by
  let change (there : ArrayData) : ArrayData :=
    if there.kind = data.kind ∧ there.size = data.size then data else there
  have changes : machine.putArray target data =
      machine.modifyHeap fun heap => heap.modifyArray target change := by
    rw [modifyArray_eq_putArray array, show change old = data from if_pos ⟨kind.symm, size.symm⟩]
  rw [changes]
  refine .modifyArray machine.heap target (fun there => ?_) fun there => ?_
  · dsimp only [change]
    split
    next same => exact ArrayData.byteSize_eq_of_kind same.1.symm same.2.symm
    next => rfl
  · dsimp only [change]
    split
    next same => exact same.1.symm
    next => rfl

end

theorem putArray_putArray (first second : ArrayData) :
    (machine.putArray target first).putArray target second = machine.putArray target second := by
  have same :
      (machine.heap.modifyArray target fun _ => first).modifyArray target (fun _ => second) =
      machine.heap.modifyArray target fun _ => second := by
    rw [Heap.modifyArray, Heap.modifyArray, Heap.modify_modify]
    refine Heap.modify_congr fun object _ => ?_
    obtain ⟨cls, hash, body, sticky, monitor⟩ := object
    cases body <;> rfl
  exact congrArg (fun heap => { machine with heap }) same

/-- Other objects stay as they are. -/
theorem get?_putArray_of_ne (different : target ≠ other) :
    (machine.putArray target data).heap.get? other = machine.heap.get? other := by
  change (machine.heap.modify target _).get? other = _
  rw [Heap.get?_modify, if_neg different]

theorem class?_putArray :
    (machine.putArray target data).heap.class? other = machine.heap.class? other :=
  Heap.class?_modify _ _ _ fun object => object.cls_modifyArray

end Machine

end Jvm
