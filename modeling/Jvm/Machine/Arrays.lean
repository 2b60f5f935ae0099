import Jvm.Machine.Resolve

/-!
# Array instructions

Access to an element is checked for a null array, then for the index; a store
also for the class of a reference. Arrays of several dimensions are built from
the outermost one in.
-/

namespace Jvm.Guest

/-- Takes an index and an array off the stack and checks them; `action` says in
the exception what was attempted. -/
def arrayOperands (action : String) : Guest (Ref × Nat) := do
  let slot ← fromStack Stack.pop
  let array ← fromStack Stack.popRef
  match array with
  | none => raiseNull s!"Cannot {action} array because value is null"
  | some array =>
    match (← get).heap.array? array with
    | none => fault (.notArray array)
    | some data =>
      let index := slot.toInt32
      if index < 0 ∨ data.size ≤ index.toNatClampNeg then
        raise .arrayIndexOutOfBoundsException (some (outOfBoundsText index data.size))
      else
        pure (array, index.toNatClampNeg)

/-- Pushes an element. -/
def loadElement : Guest Unit := do
  let (array, index) ← arrayOperands "load from"
  let data ← require ((← get).heap.array? array) (.notArray array)
  let value ← require (data.get? index) (.notArray array)
  onStack fun stack => stack.pushValue value

/-- Throws unless a reference may be stored in an array of a class. -/
def checkElement (array : Class) (value : Value) : Guest Unit := do
  match value with
  | .ref (some ref) => do
    let held ← classOf ref
    let machine ← get
    match array.array.bind (·.component) with
    | none => pure ()
    | some component =>
      if !machine.registry.isAssignable held component then
        raise .arrayStoreException (some (machine.displayName held))
  | _ => pure ()

/-- Cuts an `int` to the elements of an array. -/
def narrowFor (array : Class) (value : Value) : Value :=
  match value with
  | .int value => .int (array.array.elim value fun info => info.element.narrow value)
  | value => value

/-- The operand of a store: integers of any width are `int`s. -/
def storedKind (kind : Kind) : Kind :=
  match kind with
  | .byte | .char | .short | .boolean => .int
  | kind => kind

/-- Stores the top value in an element. -/
def storeElement (kind : Kind) : Guest Unit := do
  let value ← fromStack fun stack => stack.popValue (storedKind kind)
  let (array, index) ← arrayOperands "store to"
  let cls := (← get).cls (← classOf array)
  checkElement cls value
  let value := narrowFor cls value
  let accepted := ((← get).heap.array? array).any fun data => data.accepts value
  if accepted then
    modify fun machine => machine.modifyHeap fun heap => heap.modifyArray array fun data =>
      data.set index value
  else
    fault (.incompatibleStore kind array)

/-- Pushes the number of elements of the array on top. -/
def arrayLength : Guest Unit := do
  match ← fromStack Stack.popRef with
  | none => raiseNull "Cannot read the array length because value is null"
  | some array =>
    match (← get).heap.array? array with
    | none => fault (.lengthOfNonArray array)
    | some data => onStack fun stack => stack.pushValue (.int (Int32.ofNat data.size))

/-- A new array of arrays, one count for each dimension. -/
def newNestedArray (id : ClassId) : List Int32 → Guest Ref
  | [] => fault .noDimensions
  | [count] => newArray id count
  | count :: inner => do
    let array ← newArray id count
    let component ← require (((← get).cls id).array.bind (·.component)) .surplusDimensions
    (List.range count.toNatClampNeg).forM fun index => do
      let row ← newNestedArray component inner
      modify fun machine => machine.modifyHeap fun heap => heap.modifyArray array fun data =>
        data.set index (.ref (some row))
    pure array

/-- Takes so many counts off the stack, the last one first. -/
def popCounts : Nat → List Int32 → Guest (List Int32)
  | 0, counts => pure counts
  | remaining + 1, counts => do
    let slot ← fromStack Stack.pop
    popCounts remaining (slot.toInt32 :: counts)

/-- Pushes a new array of arrays of a class. -/
def pushNestedArray (id : ClassId) (dimensions : Nat) : Guest Unit := do
  let counts ← popCounts dimensions []
  match counts.find? (· < 0) with
  | some negative => raise .negativeArraySizeException (some (toString negative.toInt))
  | none => do
    let array ← newNestedArray id counts
    onStack fun stack => stack.pushRef (some array)

end Jvm.Guest
