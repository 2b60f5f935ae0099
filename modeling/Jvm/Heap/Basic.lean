import Jvm.ArrayData
import Jvm.Monitor
import Jvm.Slots.Fields

/-!
# The heap

An arena of objects. A handle is the index of an object in the arena plus one;
the indices of freed objects are used again, last freed first. The heap charges
each object a size, counts what it allocates and frees, and knows the objects
that must not be freed yet: those allocated by the running instruction, those
that the host pinned and the sticky ones.
-/

namespace Jvm

/-!
## Objects

An object of the heap has a class, an identity hash, a mark for the collector, a
monitor and a body: the field block of an instance or the elements of an array.
-/

/-- The contents of an object. -/
inductive Body where
  | instance (fields : Fields)
  | array (data : ArrayData)
  deriving DecidableEq, Inhabited

/-- An object. The mark is set by a collection that has found the object, and cleared
by its sweep. A sticky object is never collected. -/
structure Object where
  cls : ClassId
  hash : Int32
  body : Body
  marked : Bool := false
  sticky : Bool := false
  monitor : Monitor := Monitor.free
  deriving DecidableEq, Inhabited

namespace Object

/-- Bytes charged for an object besides its contents. -/
def headerSize : Nat := 16

/-- Bytes charged for the contents of an object. -/
def payload (object : Object) : Nat :=
  match object.body with
  | .instance fields => fields.size * 4
  | .array data => data.byteSize

/-- Bytes charged for an object. -/
def size (object : Object) : Nat := headerSize + object.payload

def fields? (object : Object) : Option Fields :=
  match object.body with
  | .instance fields => some fields
  | .array _ => none

def array? (object : Object) : Option ArrayData :=
  match object.body with
  | .instance _ => none
  | .array data => some data

/-- Changes the field block of an instance. -/
@[inline] def modifyFields (object : Object) (change : Fields → Fields) : Object :=
  match object with
  | ⟨cls, hash, .instance fields, marked, sticky, monitor⟩ =>
    ⟨cls, hash, .instance (change fields), marked, sticky, monitor⟩
  | ⟨cls, hash, .array data, marked, sticky, monitor⟩ =>
    ⟨cls, hash, .array data, marked, sticky, monitor⟩

/-- Changes the elements of an array. -/
@[inline] def modifyArray (object : Object) (change : ArrayData → ArrayData) : Object :=
  match object with
  | ⟨cls, hash, .array data, marked, sticky, monitor⟩ =>
    ⟨cls, hash, .array (change data), marked, sticky, monitor⟩
  | ⟨cls, hash, .instance fields, marked, sticky, monitor⟩ =>
    ⟨cls, hash, .instance fields, marked, sticky, monitor⟩

/-- References that an object holds, given the reference slots of its class. -/
def references (object : Object) (refSlots : List UInt16) : List Ref :=
  match object.body with
  | .instance fields => refSlots.filterMap fun slot => fields.getRef slot.toNat
  | .array data => data.references

end Object

/-! ## The arena -/

/-- The generator of identity hashes: from each seed it draws one after the other, and
each of them is positive. -/
structure HashSource where
  draw : UInt64 → Nat → Int32
  positive : ∀ seed index, 0 < draw seed index

/-- A generator for hosts that have none: it counts, whatever the seed. -/
def HashSource.counting : HashSource where
  draw _ index := Int32.ofNat (index % 0x7FFFFFFF + 1)
  positive _ index := by
    have small : index % 0x7FFFFFFF < 0x7FFFFFFF := Nat.mod_lt _ (by decide)
    rw [Int32.lt_iff_toInt_lt, Int32.toInt_ofNat_of_lt (by omega)]
    exact Int.lt_of_le_of_lt (Int.le_refl 0) (by omega)

instance : Inhabited HashSource := ⟨.counting⟩

/-- An arena of objects with its accounts. -/
structure Heap where
  objects : Array (Option Object) := #[]
  /-- Indices of empty places, the next to be used first. -/
  free : List Nat := []
  usedBytes : Nat := 0
  limit : Nat
  /-- Bytes allocated between two collections. -/
  threshold : Nat
  /-- Collect on every n-th allocation. -/
  stress : Option UInt32 := none
  /-- Bytes and objects allocated since the last collection. -/
  recentBytes : Nat := 0
  recentObjects : Nat := 0
  /-- Objects allocated since the last instruction started. -/
  pending : List Ref := []
  /-- Pinned objects, once for each pin. -/
  pinned : List Ref := []
  /-- What draws the identity hashes, from which seed, and how many it has drawn. -/
  hashes : HashSource := default
  hashSeed : UInt64 := 0
  drawn : Nat := 0
  collections : Nat := 0
  totalAllocated : Nat := 0
  totalFreed : Nat := 0
  deriving Inhabited

/-- What a host can ask of a heap. -/
structure HeapStats where
  liveObjects : Nat
  liveBytes : Nat
  limit : Nat
  collections : Nat
  totalAllocated : Nat
  totalFreed : Nat
  deriving DecidableEq, Repr

namespace Heap

/-- Size of an object with a payload, unless it exceeds every number of bytes. -/
def objectSize? (payload : Nat) : Option Nat :=
  let size := payload + Object.headerSize
  if size < UInt64.size then some size else none

/-- Draws the next identity hash. -/
def nextHash (heap : Heap) : Int32 × Heap :=
  (heap.hashes.draw heap.hashSeed heap.drawn, { heap with drawn := heap.drawn + 1 })

/-- Whether a collection is due before so many bytes are allocated. -/
def wantsCollection (heap : Heap) (size : Nat) : Bool :=
  heap.stress.any (fun every => every.toNat ≤ heap.recentObjects) ||
    heap.threshold < heap.recentBytes + size

/-- Whether so many bytes fit below the limit. -/
def fits (heap : Heap) (size : Nat) : Bool := heap.usedBytes + size ≤ heap.limit

/-- Puts an object into the arena. -/
def insert (heap : Heap) (object : Object) : Ref × Heap :=
  let size := object.size
  let index := heap.free.headD heap.objects.size
  let ref := Ref.ofIndex index
  (ref, { heap with
    objects :=
      match heap.free with
      | [] => heap.objects.push (some object)
      | index :: _ => heap.objects.setIfInBounds index (some object)
    free := heap.free.tail
    usedBytes := heap.usedBytes + size
    recentBytes := heap.recentBytes + size
    recentObjects := heap.recentObjects + 1
    totalAllocated := heap.totalAllocated + 1
    pending := ref :: heap.pending })

/-- The live object of a handle. -/
def get? (heap : Heap) (ref : Ref) : Option Object := heap.objects.getD ref.index none

/-- Whether a handle is that of a live object. -/
def isLive (heap : Heap) (ref : Ref) : Bool := (heap.get? ref).isSome

/-- Changes a live object. -/
@[inline] def modify (heap : Heap) (ref : Ref) (change : Object → Object) : Heap :=
  { heap with objects := heap.objects.modify ref.index fun object => object.map change }

/-- Changes the field block of a live instance. -/
@[inline] def modifyFields (heap : Heap) (ref : Ref) (change : Fields → Fields) : Heap :=
  heap.modify ref fun object => object.modifyFields change

/-- Changes the elements of a live array. -/
@[inline] def modifyArray (heap : Heap) (ref : Ref) (change : ArrayData → ArrayData) : Heap :=
  heap.modify ref fun object => object.modifyArray change

/-- The field block of a live instance. -/
def fields? (heap : Heap) (ref : Ref) : Option Fields := (heap.get? ref).bind Object.fields?

/-- The elements of a live array. -/
def array? (heap : Heap) (ref : Ref) : Option ArrayData := (heap.get? ref).bind Object.array?

/-- The class of a live object. -/
def class? (heap : Heap) (ref : Ref) : Option ClassId := (heap.get? ref).map (·.cls)

/-- Keeps an object for ever. -/
def setSticky (heap : Heap) (ref : Ref) : Heap :=
  heap.modify ref fun object => { object with sticky := true }

/-- Keeps an object until the next instruction starts. -/
def protect (heap : Heap) (ref : Ref) : Heap := { heap with pending := ref :: heap.pending }

/-- An instruction starts. -/
@[inline] def clearPending (heap : Heap) : Heap := { heap with pending := [] }

/-- Keeps an object until it is unpinned as often as it was pinned. -/
def pin (heap : Heap) (ref : Ref) : Heap := { heap with pinned := ref :: heap.pinned }

def unpin (heap : Heap) (ref : Ref) : Heap := { heap with pinned := heap.pinned.erase ref }

/-- Handles of the sticky objects. -/
def stickyRefs (heap : Heap) : List Ref :=
  (List.range heap.objects.size).filterMap fun index =>
    match heap.objects.getD index none with
    | some object => if object.sticky then some (Ref.ofIndex index) else none
    | none => none

/-- Objects that the heap itself keeps. -/
def roots (heap : Heap) : List Ref := heap.pending ++ heap.pinned ++ heap.stickyRefs

def liveObjects (heap : Heap) : Nat := heap.objects.size - heap.free.length

def stats (heap : Heap) : HeapStats :=
  { liveObjects := heap.liveObjects, liveBytes := heap.usedBytes, limit := heap.limit
    collections := heap.collections, totalAllocated := heap.totalAllocated
    totalFreed := heap.totalFreed }

/-- Frees every monitor that an execution holds. -/
def releaseMonitors (heap : Heap) (exec : ExecId) : Heap :=
  { heap with objects := heap.objects.map fun object =>
      object.map fun object =>
        if object.monitor.heldBy exec then { object with monitor := Monitor.free } else object }

end Heap

end Jvm
