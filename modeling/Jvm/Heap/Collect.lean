import Jvm.Heap.Basic
import Jvm.Registry.Basic

/-!
# Collection

A collection marks what the roots reach and frees the rest. Marking keeps the
objects still to be visited in a list, so the depth of the object graph does not
matter, and tells the objects already visited by their marks, which the sweep
clears again. Sticky objects are kept whether they are marked or not.
-/

namespace Jvm

/-- The outcome of a collection. -/
structure GcReport where
  marked : Nat
  freed : Nat
  live : Nat
  freedBytes : Nat
  liveBytes : Nat
  deriving DecidableEq, Repr

namespace Heap

/-- References that an object holds, by the layout of its class. -/
def edges (table : ClassTable) (object : Object) : List Ref :=
  object.references ((table.class? object.cls).elim [] (·.refSlots))

/-- Marks a live object. -/
def setMarked (heap : Heap) (ref : Ref) : Heap :=
  heap.modify ref fun object => { object with marked := true }

/-- Marks what a list of objects reaches; the count is of the objects marked. What is
marked already is passed over. `fuel` bounds how many are still to be marked. -/
def mark (table : ClassTable) : Nat → List Ref → Heap × Nat → Heap × Nat
  | _, [], marked => marked
  | fuel, ref :: rest, (heap, count) =>
    match heap.get? ref with
    | none => mark table fuel rest (heap, count)
    | some object =>
      if object.marked then mark table fuel rest (heap, count)
      else
        match fuel with
        | 0 => (heap, count)
        | fuel + 1 =>
          mark table fuel (edges table object ++ rest) (heap.setMarked ref, count + 1)
termination_by fuel worklist => (fuel, worklist.length)

/-- The objects that are neither marked nor sticky, with their indices, ascending. -/
def dead (heap : Heap) : List (Nat × Object) :=
  (List.range heap.objects.size).filterMap fun index =>
    (heap.objects.getD index none).bind fun object =>
      if object.marked || object.sticky then none else some (index, object)

/-- Bytes that objects take. -/
def bytesOf (objects : List (Nat × Object)) : Nat :=
  objects.foldr (fun (_, object) bytes => object.size + bytes) 0

/-- Frees every object that is neither marked nor sticky, and clears the marks of the
others. -/
def sweep (heap : Heap) : Heap :=
  let dead := heap.dead
  { heap with
    objects := heap.objects.map fun place => place.bind fun object =>
      if object.marked || object.sticky then some { object with marked := false } else none
    free := (dead.map Prod.fst).reverse ++ heap.free
    usedBytes := heap.usedBytes - bytesOf dead
    recentBytes := 0
    recentObjects := 0
    collections := heap.collections + 1
    totalFreed := heap.totalFreed + dead.length }

/-- Frees every object that the roots do not reach. -/
def collect (heap : Heap) (table : ClassTable) (roots : List Ref) : GcReport × Heap :=
  let (marked, count) := mark table heap.objects.size roots (heap, 0)
  let dead := marked.dead
  let swept := marked.sweep
  ({ marked := count
     freed := dead.length
     live := swept.liveObjects
     freedBytes := bytesOf dead
     liveBytes := swept.usedBytes }, swept)

end Heap

end Jvm
