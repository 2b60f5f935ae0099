import Jvm.Proofs.Heap.Accounts

/-!
# Objects that keep their shapes and forms

Whatever is written to an object, it stays of its class, takes as many bytes as
before, is marked or not and is locked as it was. So a heap in which objects are only written has its
accounts right if it had them right, and an object that is allocated takes the place of
no live one.
-/

namespace Jvm

namespace ArrayData

theorem byteSize_set (data : ArrayData) (index : Nat) (value : Value) :
    (data.set index value).byteSize = data.byteSize := by
  cases data <;> cases value <;> simp [set, byteSize, size, elementSize]

theorem size_splice {α : Type} (target : Array α) (start : Nat) (elements : List α) :
    (splice target start elements).size = target.size := by
  induction elements generalizing target start with
  | nil => rfl
  | cons element rest ih => rw [splice, ih, Array.size_setIfInBounds]

theorem byteSize_copyWithin (data : ArrayData) (start place count : Nat) :
    (data.copyWithin start place count).byteSize = data.byteSize := by
  cases data <;> simp [copyWithin, byteSize, size, elementSize, transfer, size_splice]

theorem byteSize_copyFrom? (target : ArrayData) (place : Nat) (source : ArrayData)
    (start count : Nat) :
    ((target.copyFrom? place source start count).getD target).byteSize = target.byteSize := by
  cases target <;> cases source <;>
    simp [copyFrom?, byteSize, size, elementSize, transfer, size_splice]

end ArrayData

namespace Object

/-- Whether an object is as it is made: nobody holds its lock, and it is not marked. -/
structure IsNew (object : Object) : Prop where
  free : object.monitor = .free
  unmarked : object.marked = false

/-- The class of an object, the bytes that it takes and its mark. -/
def shape (object : Object) : ClassId × Nat × Bool := (object.cls, object.size, object.marked)

theorem shape_modifyFields {change : Fields → Fields}
    (size : ∀ fields, (change fields).size = fields.size) (object : Object) :
    (object.modifyFields change).shape = object.shape := by
  obtain ⟨cls, hash, body, marked, sticky, monitor⟩ := object
  cases body with
  | «instance» fields =>
      change (cls, headerSize + (change fields).size * 4, marked) =
        (cls, headerSize + fields.size * 4, marked)
      rw [size]
  | array data => rfl

theorem shape_modifyArray {change : ArrayData → ArrayData}
    (size : ∀ data, (change data).byteSize = data.byteSize) (object : Object) :
    (object.modifyArray change).shape = object.shape := by
  obtain ⟨cls, hash, body, marked, sticky, monitor⟩ := object
  cases body with
  | «instance» fields => rfl
  | array data =>
      change (cls, headerSize + (change data).byteSize, marked) =
        (cls, headerSize + data.byteSize, marked)
      rw [size]

theorem cls_modifyFields {change : Fields → Fields} (object : Object) :
    (object.modifyFields change).cls = object.cls := by
  obtain ⟨cls, hash, body, marked, sticky, monitor⟩ := object
  cases body <;> rfl

theorem cls_modifyArray {change : ArrayData → ArrayData} (object : Object) :
    (object.modifyArray change).cls = object.cls := by
  obtain ⟨cls, hash, body, marked, sticky, monitor⟩ := object
  cases body <;> rfl

theorem monitor_modifyFields {change : Fields → Fields} (object : Object) :
    (object.modifyFields change).monitor = object.monitor := by
  obtain ⟨cls, hash, body, marked, sticky, monitor⟩ := object
  cases body <;> rfl

theorem monitor_modifyArray {change : ArrayData → ArrayData} (object : Object) :
    (object.modifyArray change).monitor = object.monitor := by
  obtain ⟨cls, hash, body, marked, sticky, monitor⟩ := object
  cases body <;> rfl

end Object

namespace Heap

/-- Whether a heap has objects of the same shapes at the same places as another one. -/
structure SameShapes (before after : Heap) : Prop where
  places : after.objects.size = before.objects.size
  objects : ∀ index, (after.objects.getD index none).map Object.shape =
    (before.objects.getD index none).map Object.shape
  free : after.free = before.free
  used : after.usedBytes = before.usedBytes

namespace SameShapes

variable {first second third : Heap}

theorem modify (heap : Heap) (ref : Ref) {change : Object → Object}
    (same : ∀ object, (change object).shape = object.shape) :
    heap.SameShapes (heap.modify ref change) where
  places := Array.size_modify
  objects index := by
    rw [getD_objects_modify]
    split
    · rw [Option.map_map, Function.comp_def, funext same]
    · rfl
  free := rfl
  used := rfl

theorem releaseMonitors (heap : Heap) (exec : ExecId) :
    heap.SameShapes (heap.releaseMonitors exec) where
  places := Array.size_map
  objects index := by
    simp only [Heap.releaseMonitors, Array.getD_eq_getD_getElem?, Array.getElem?_map]
    cases heap.objects[index]? with
    | none => rfl
    | some place =>
        cases place with
        | none => rfl
        | some object =>
            simp only [Option.map_some, Option.getD_some]
            split <;> rfl
  free := rfl
  used := rfl

variable (same : first.SameShapes second)

include same

theorem class? (ref : Ref) : second.class? ref = first.class? ref := by
  have shape := congrArg (Option.map Prod.fst) (same.objects ref.index)
  rw [Option.map_map, Option.map_map] at shape
  exact shape

theorem accounted (accounted : first.Accounted) : second.Accounted := by
  have holds : second.holds = first.holds := by
    funext index
    have shape := congrArg Option.isSome (same.objects index)
    rw [Option.isSome_map, Option.isSome_map] at shape
    exact shape
  have sizes : second.sizeAt = first.sizeAt := by
    funext index
    have shape := congrArg (Option.elim · 0 fun shape => shape.2.1) (same.objects index)
    simp only [Option.elim_map] at shape
    exact shape
  have marks : second.markedAt = first.markedAt := by
    funext index
    have shape := congrArg (Option.any fun shape => shape.2.2) (same.objects index)
    rw [Option.any_map, Option.any_map] at shape
    exact shape
  refine ⟨fun index => ?_, fun index => ?_, ?_, ?_⟩
  · rw [marks]
    exact accounted.unmarked index
  · rw [same.free, same.places, holds]
    exact accounted.mem_free index
  · rw [same.free]
    exact accounted.nodup_free
  · rw [same.used, accounted.charged, occupiedBytes, occupiedBytes, same.places, sizes]

end SameShapes

/-- Whether a heap has objects of the same shapes and monitors at the same places as another
one. -/
structure Writes (before after : Heap) : Prop extends before.SameShapes after where
  monitors : ∀ index, (after.objects.getD index none).map Object.monitor =
    (before.objects.getD index none).map Object.monitor

namespace Writes

variable {first second third : Heap}

theorem of_objects (objects : second.objects = first.objects) (free : second.free = first.free)
    (used : second.usedBytes = first.usedBytes) : first.Writes second :=
  ⟨⟨by rw [objects], fun index => by rw [objects], free, used⟩, fun index => by rw [objects]⟩

theorem trans (left : first.Writes second) (right : second.Writes third) : first.Writes third where
  places := right.places.trans left.places
  objects index := (right.objects index).trans (left.objects index)
  free := right.free.trans left.free
  used := right.used.trans left.used
  monitors index := (right.monitors index).trans (left.monitors index)

theorem modify (heap : Heap) (ref : Ref) {change : Object → Object}
    (same : ∀ object, (change object).shape = object.shape)
    (monitors : ∀ object, (change object).monitor = object.monitor) :
    heap.Writes (heap.modify ref change) where
  toSameShapes := .modify heap ref same
  monitors index := by
    rw [getD_objects_modify]
    split
    · rw [Option.map_map, Function.comp_def, funext monitors]
    · rfl

theorem setSticky (heap : Heap) (ref : Ref) : heap.Writes (heap.setSticky ref) :=
  modify heap ref (fun _ => rfl) fun _ => rfl

theorem modifyFields (heap : Heap) (ref : Ref) {change : Fields → Fields}
    (size : ∀ fields, (change fields).size = fields.size) :
    heap.Writes (heap.modifyFields ref change) :=
  modify heap ref (Object.shape_modifyFields size) Object.monitor_modifyFields

theorem modifyArray (heap : Heap) (ref : Ref) {change : ArrayData → ArrayData}
    (size : ∀ data, (change data).byteSize = data.byteSize) :
    heap.Writes (heap.modifyArray ref change) :=
  modify heap ref (Object.shape_modifyArray size) Object.monitor_modifyArray

theorem monitor_get? (writes : first.Writes second) (ref : Ref) :
    (second.get? ref).map Object.monitor = (first.get? ref).map Object.monitor :=
  writes.monitors ref.index

end Writes

/-- Every object stays of its class. -/
theorem class?_modify (heap : Heap) (ref other : Ref) {change : Object → Object}
    (same : ∀ object, (change object).cls = object.cls) :
    (heap.modify ref change).class? other = heap.class? other := by
  rw [Heap.class?, Heap.get?_modify, Heap.class?]
  split
  · rw [Option.map_map]
    exact congrArg (Option.map · _) (funext same)
  · rfl

/-- An object that is allocated takes the place of no live one. -/
theorem get?_insert_of_live {heap : Heap} (accounted : heap.Accounted) {ref : Ref} {object : Object}
    (live : heap.get? ref = some object) (other : Object) :
    (heap.insert other).2.get? ref = some object := by
  cases free : heap.free with
  | nil =>
      have inside : ref.index < heap.objects.size := by
        by_contra outside
        rw [get?, Array.getD_eq_getD_getElem?, Array.getElem?_eq_none (Nat.le_of_not_lt outside)]
          at live
        cases live
      rw [get?, (insert_of_free_eq_nil other free).1, Array.getD_eq_getD_getElem?,
        Array.getElem?_push, if_neg (Nat.ne_of_lt inside), ← Array.getD_eq_getD_getElem?]
      exact live
  | cons hole rest =>
      have empty := ((accounted.mem_free hole).mp (free ▸ List.mem_cons_self)).2
      have differs : hole ≠ ref.index := by
        rintro rfl
        rw [holds, ← get?, live] at empty
        cases empty
      rw [get?, (insert_of_free_eq_cons other free).1, Array.getD_eq_getD_getElem?,
        Array.getElem?_setIfInBounds_ne differs, ← Array.getD_eq_getD_getElem?]
      exact live

end Heap

end Jvm

/-!
## Forms of objects

An object has a number of field slots, or elements that are stored as a kind. It has them for
good: no write adds a slot or changes the storage, whether elements are written one by one or
copied, from the same array or another one.
-/

namespace Jvm

/-- The kind that elements are stored as. -/
def Kind.storage : Kind → Kind
  | .boolean => .byte
  | kind => kind

/-- The kind that the elements of an array are stored as. -/
def ArrayData.kind : ArrayData → Kind
  | .bytes _ => .byte
  | .chars _ => .char
  | .shorts _ => .short
  | .ints _ => .int
  | .longs _ => .long
  | .floats _ => .float
  | .doubles _ => .double
  | .refs _ => .reference

/-- What an object has room for. -/
inductive Form where
  | fields (slots : Nat)
  | elements (kind : Kind)
  deriving DecidableEq

def Body.form : Body → Form
  | .instance fields => .fields fields.size
  | .array data => .elements data.kind

/-- What the objects of a class have room for. -/
def Class.form (cls : Class) : Form :=
  match cls.array with
  | none => .fields cls.instanceSlots.toNat
  | some info => .elements info.element.storage

/-- The class of an object and what it has room for. -/
def Object.form (object : Object) : ClassId × Form := (object.cls, object.body.form)

namespace ArrayData

theorem kind_ofSize (kind : Kind) (count : Nat) : (ofSize kind count).kind = kind.storage := by
  cases kind <;> rfl

theorem kind_set (data : ArrayData) (index : Nat) (value : Value) :
    (data.set index value).kind = data.kind := by
  cases data <;> cases value <;> rfl

theorem kind_copyWithin (data : ArrayData) (start place count : Nat) :
    (data.copyWithin start place count).kind = data.kind := by
  cases data <;> rfl

theorem kind_copyFrom? (target : ArrayData) (place : Nat) (source : ArrayData)
    (start count : Nat) :
    ((target.copyFrom? place source start count).getD target).kind = target.kind := by
  cases target <;> cases source <;> rfl

/-- Elements are copied where they are stored alike. -/
theorem isSome_copyFrom? {target source : ArrayData} (same : target.kind = source.kind)
    (place start count : Nat) : (target.copyFrom? place source start count).isSome = true := by
  cases target <;> cases source <;> first | rfl | cases same

end ArrayData

namespace Object

theorem form_modifyFields {change : Fields → Fields}
    (size : ∀ fields, (change fields).size = fields.size) (object : Object) :
    (object.modifyFields change).form = object.form := by
  obtain ⟨cls, hash, body, marked, sticky, monitor⟩ := object
  cases body with
  | «instance» fields => exact congrArg (fun slots => (cls, Form.fields slots)) (size fields)
  | array data => rfl

theorem form_modifyArray {change : ArrayData → ArrayData}
    (kind : ∀ data, (change data).kind = data.kind) (object : Object) :
    (object.modifyArray change).form = object.form := by
  obtain ⟨cls, hash, body, marked, sticky, monitor⟩ := object
  cases body with
  | «instance» fields => rfl
  | array data => exact congrArg (fun kind => (cls, Form.elements kind)) (kind data)

end Object

namespace Heap

/-- Whether a heap has objects of the same forms at the same places as another one. -/
structure SameForms (before after : Heap) : Prop where
  forms : ∀ index, (after.objects.getD index none).map Object.form =
    (before.objects.getD index none).map Object.form

namespace SameForms

variable {first second third : Heap}

theorem of_objects (objects : second.objects = first.objects) : first.SameForms second :=
  ⟨fun index => by rw [objects]⟩

theorem trans (left : first.SameForms second) (right : second.SameForms third) :
    first.SameForms third :=
  ⟨fun index => (right.forms index).trans (left.forms index)⟩

theorem modify (heap : Heap) (ref : Ref) {change : Object → Object}
    (same : ∀ object, (change object).form = object.form) :
    heap.SameForms (heap.modify ref change) where
  forms index := by
    rw [getD_objects_modify]
    split
    · rw [Option.map_map, Function.comp_def, funext same]
    · rfl

theorem setSticky (heap : Heap) (ref : Ref) : heap.SameForms (heap.setSticky ref) :=
  modify heap ref fun _ => rfl

theorem modifyFields (heap : Heap) (ref : Ref) {change : Fields → Fields}
    (size : ∀ fields, (change fields).size = fields.size) :
    heap.SameForms (heap.modifyFields ref change) :=
  modify heap ref (Object.form_modifyFields size)

theorem modifyArray (heap : Heap) (ref : Ref) {change : ArrayData → ArrayData}
    (kind : ∀ data, (change data).kind = data.kind) :
    heap.SameForms (heap.modifyArray ref change) :=
  modify heap ref (Object.form_modifyArray kind)

theorem releaseMonitors (heap : Heap) (exec : ExecId) :
    heap.SameForms (heap.releaseMonitors exec) where
  forms index := by
    simp only [Heap.releaseMonitors, Array.getD_eq_getD_getElem?, Array.getElem?_map]
    rcases heap.objects[index]? with _ | _ | object
    · rfl
    · rfl
    · simp only [Option.map_some, Option.getD_some]
      split <;> rfl

end SameForms

end Heap

end Jvm
