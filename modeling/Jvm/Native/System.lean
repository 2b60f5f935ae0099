import Jvm.Native.Text

/-!
# System natives

Copying between arrays, the clock, identity hashes and collection on request. A
copy is checked before the first element moves; only elements that the target
cannot hold are found on the way, and what was copied before them stays.
-/

namespace Jvm.SystemNative

open Guest

/-- One side of a copy. -/
structure Side where
  /-- What the side is called in messages. -/
  role : String
  array : Ref
  position : Int32
  deriving DecidableEq

/-- Refuses a copy for the types of its arrays or of an element. -/
def refuse {α : Type} (message : String) : Guest α :=
  raise .arrayStoreException (some ("arraycopy: " ++ message))

/-- Number of elements of an array. -/
def sizeOf (side : Side) : Guest Nat := do
  match (← get).heap.array? side.array with
  | some data => pure data.size
  | none => do
    let name := (← get).displayName (← classOf side.array)
    refuse s!"{side.role} type {name} is not an array"

/-- What is wrong with the range of one side, if anything. -/
def rangeFault? (side : Side) (length : Int32) (size : Nat) : Option String :=
  if side.position < 0 then
    some s!"arraycopy: {side.role} index {side.position.toInt} out of bounds for length {size}"
  else if length < 0 then
    some s!"arraycopy: length {length.toInt} is negative"
  else if (size : Int) < side.position.toInt + length.toInt then
    let last := side.position.toInt + length.toInt
    some s!"arraycopy: last {side.role} index {last} out of bounds for length {size}"
  else
    none

/-- Throws unless the range lies in the array. -/
def checkRange (side : Side) (length : Int32) (size : Nat) : Guest Unit :=
  match rangeFault? side length size with
  | some message => raise .arrayIndexOutOfBoundsException (some message)
  | none => pure ()

/-- Storage kind of the elements of arrays of a class. -/
def elementKind (machine : Machine) (cls : ClassId) : Option Kind :=
  (machine.cls cls).array.map (·.element)

/-- The class that each element has to be checked against: that of the target's
elements, unless whatever the source holds may go into the target. -/
def checkedAgainst (machine : Machine) (source target : ClassId) : Option ClassId :=
  if elementKind machine target ≠ some .reference then none
  else if machine.registry.isAssignable source target then none
  else (machine.cls target).array.bind (·.component)

/-- Copies references one by one, each checked against a class. -/
def copyChecked (target : Ref) (component : ClassId) :
    Nat → List (Option Ref) → Guest Unit
  | _, [] => pure ()
  | index, element :: rest => do
    match element with
    | none => pure ()
    | some ref => do
      let cls ← classOf ref
      let machine ← get
      if !machine.registry.isAssignable cls component then
        refuse (s!"element type mismatch: can not cast one of the elements of " ++
          s!"{machine.displayName cls}[] to the type of the destination array, " ++
          machine.displayName component)
    modify fun machine => machine.modifyHeap fun heap => heap.modifyArray target fun data =>
      data.set index (.ref element)
    copyChecked target component (index + 1) rest

/-- The references at `[start, start + count)` of an array. -/
def referencesAt (machine : Machine) (array : Ref) (start count : Nat) : List (Option Ref) :=
  match machine.heap.array? array with
  | some (.refs elements) => (elements.extract start (start + count)).toList
  | _ => []

/-- Copies elements between arrays of one element kind, in ranges that lie in
them. -/
def copyElements (source target : Ref) (sourceClass targetClass : ClassId)
    (start place count : Nat) : Guest Unit := do
  if source = target then
    modify fun machine => machine.modifyHeap fun heap => heap.modifyArray target fun data =>
      data.copyWithin start place count
  else
    let machine ← get
    match checkedAgainst machine sourceClass targetClass with
    | some component =>
      copyChecked target component place (referencesAt machine source start count)
    | none =>
      modify fun machine => machine.modifyHeap fun heap =>
        match heap.array? source with
        | none => heap
        | some elements => heap.modifyArray target fun data =>
            (data.copyFrom? place elements start count).getD data

/-- Copies elements of a range to another one, once it is known that these lie in their arrays. -/
def copyBetween (source target : Side) (length : Int32) (sourceSize targetSize : Nat)
    (sourceClass targetClass : ClassId) : Guest Unit := do
  checkRange source length sourceSize
  checkRange target length targetSize
  if length ≠ 0 then
    copyElements source.array target.array sourceClass targetClass
      source.position.toNatClampNeg target.position.toNatClampNeg length.toNatClampNeg

/-- Copies `length` elements from one array to another, or within one. -/
def copy (arguments : NativeArgs) : Guest Unit := do
  let source : Side := ⟨"source", ← nonNull (arguments.ref 0) "src", arguments.int 1⟩
  let target : Side := ⟨"destination", ← nonNull (arguments.ref 2) "dest", arguments.int 3⟩
  let length := arguments.int 4
  let sourceSize ← sizeOf source
  let targetSize ← sizeOf target
  let sourceClass ← classOf source.array
  let targetClass ← classOf target.array
  let machine ← get
  if elementKind machine sourceClass ≠ elementKind machine targetClass then
    refuse (s!"type mismatch: can not copy {machine.displayName sourceClass} " ++
      s!"into {machine.displayName targetClass}")
  copyBetween source target length sourceSize targetSize sourceClass targetClass

def run (native : SystemNative) (arguments : NativeArgs) : Guest Value := do
  match native with
  | .arraycopy => do
    copy arguments
    pure .void
  | .identityHashCode =>
    pure (.int ((arguments.ref 0).elim 0 (← get).identityHash))
  | .currentTimeMillis => do
    let machine ← get
    pure (.long (Int64.ofNat (machine.clock.calendar machine.executed machine.slept)))
  | .nanoTime => pure (.long (Int64.ofNat (← get).now))
  | .gc => do
    let _ ← collect
    pure .void

end Jvm.SystemNative
