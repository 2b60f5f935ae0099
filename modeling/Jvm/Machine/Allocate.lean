import Jvm.Heap.Collect
import Jvm.Machine.Basic
import Jvm.Text.Utf16

/-!
# Allocation

Objects are allocated after a collection when one is due, and again after a
collection when the heap is full; then the error object kept for this case is
thrown. Strings, throwables and class objects are built from allocations: what
an instruction has allocated is kept until it ends, so parts of such an object
survive the collections in between. The roots of a collection are everything
through which a program, the host or the machine can still name an object.
-/

namespace Jvm

namespace Machine

/-- Every object that is named from outside the heap, or that the heap keeps. -/
def roots (machine : Machine) : List Ref :=
  machine.heap.roots ++
    machine.interned.values ++
    machine.registry.classes.toList.flatMap Class.references ++
    machine.outOfMemory.toList ++
    machine.exec.roots ++
    machine.parked.flatMap Execution.roots ++
    machine.completed.filterMap fun (_, value) => value.ref?.join

/-- Frees every object that cannot be named any more. -/
def collectGarbage (machine : Machine) : GcReport × Machine :=
  let (report, heap) := machine.heap.collect machine.registry.toClassTable machine.roots
  (report, { machine with heap })

end Machine

namespace Guest

/-- Throws the error object kept for a full heap. -/
def throwOutOfMemory {α : Type} : Guest α := do
  match (← get).outOfMemory with
  | some ref => throw (.exception ref)
  | none => fatal .outOfMemory

/-- Runs a collection. -/
def collect : Guest GcReport := modifyGet Machine.collectGarbage

/-- Collects if a collection is due before so many bytes are allocated. -/
def collectIfDue (size : Nat) : Guest Unit := do
  if (← get).heap.wantsCollection size then
    let _ ← collect

/-- Allocates an object whose contents take `payload` bytes; `make` gets its
identity hash. -/
def alloc (payload : Nat) (make : Int32 → Object) : Guest Ref := do
  match Heap.objectSize? payload with
  | none => throwOutOfMemory
  | some size => do
    collectIfDue size
    if !(← get).heap.fits size then
      let _ ← collect
      if !(← get).heap.fits size then
        throwOutOfMemory
    modifyGet fun machine =>
      let (hash, heap) := machine.heap.nextHash
      let (ref, heap) := heap.insert (make hash)
      (ref, { machine with heap })

/-- A new instance with zero fields. No constructor runs. -/
def newInstance (id : ClassId) : Guest Ref := do
  let slots := ((← get).cls id).instanceSlots.toNat
  alloc (slots * 4) fun hash => { cls := id, hash, body := .instance (Fields.ofSize slots) }

/-- A new array with the given elements. -/
def newArrayOf (id : ClassId) (data : ArrayData) : Guest Ref :=
  alloc data.byteSize fun hash => { cls := id, hash, body := .array data }

/-- A new array of zeros. -/
def newZeroArray (id : ClassId) (size : Nat) : Guest Ref := do
  let cls := (← get).cls id
  match cls.array with
  | none => fault (.notArrayClass cls.name)
  | some info =>
    alloc (size * info.element.size) fun hash =>
      { cls := id, hash, body := .array (ArrayData.ofSize info.element size) }

/-! ### Strings -/

/-- A new string from its bytes and coder. -/
def newCompactString (bytes : List Int8) (coder : Int8) : Guest Ref := do
  let known := (← get).known
  let value ← newArrayOf known.byteArray (.bytes bytes.toArray)
  let string ← newInstance known.string
  modify fun machine => machine.modifyHeap fun heap => heap.modifyFields string fun fields =>
    (fields.setRef known.stringValue (some value)).setInt known.stringCoder coder.toInt32
  pure string

/-- A new string of a text. -/
def newString (text : String) : Guest Ref :=
  let (bytes, coder) := Text.compact text
  newCompactString bytes coder

/-- A new string of UTF-16 units. -/
def newStringOfUnits (units : List UInt16) : Guest Ref :=
  let (bytes, coder) := Text.compactUnits units
  newCompactString bytes coder

end Guest

namespace Machine

/-- UTF-16 units of a string object. -/
def stringUnits? (machine : Machine) (ref : Ref) : Option (List UInt16) := do
  let object ← machine.heap.get? ref
  if object.cls ≠ machine.known.string then none
  else
    let fields ← object.fields?
    let coder := (fields.getInt machine.known.stringCoder).toInt8
    let value ← fields.getRef machine.known.stringValue
    match ← machine.heap.array? value with
    | .bytes bytes => some (Text.expand bytes.toList coder)
    | _ => none

/-- Text of a string object. -/
def stringText? (machine : Machine) (ref : Ref) : Option String :=
  (machine.stringUnits? ref).map Text.ofUnits

/-- Message of a throwable, if it is a string. -/
def throwableMessage? (machine : Machine) (ref : Ref) : Option String := do
  let fields ← machine.heap.fields? ref
  let message ← fields.getRef machine.known.throwableMessage
  machine.stringText? message

/-- Makes a string object the canonical one of a text. -/
def intern (machine : Machine) (text : String) (ref : Ref) : Machine :=
  { machine with
    heap := machine.heap.setSticky ref, interned := machine.interned.insert text ref }

/-- The class that a class object stands for. -/
def mirrored? (machine : Machine) (ref : Ref) : Option ClassId := do
  let object ← machine.heap.get? ref
  if object.cls ≠ machine.known.cls then none
  else
    let fields ← object.fields?
    let id : ClassId := ⟨(fields.get machine.known.classNumber).toNat⟩
    let cls ← machine.registry.class? id
    if cls.mirror = some ref then some cls.id else none

/-- Identity hash of an object; zero if it is not live. -/
def identityHash (machine : Machine) (ref : Ref) : Int32 :=
  (machine.heap.get? ref).elim 0 (·.hash)

end Machine

namespace Guest

/-! ### Exceptions -/

/-- A class by name, loaded if it is not there. -/
def loadRaw (name : String) : Guest (Except LoadError ClassId) :=
  linking fun registry => registry.load name

/-- A new instance of a throwable class. No constructor runs. -/
def newThrowable (className : String) (message : Option String) : Guest Ref := do
  let id ← ofLoad (← loadRaw className)
  let ref ← newInstance id
  match message with
  | none => pure ref
  | some message => do
    let text ← newString message
    modify fun machine => machine.modifyHeap fun heap => heap.modifyFields ref fun fields =>
      fields.setRef machine.known.throwableMessage (some text)
    pure ref

/-- Throws a new exception. What goes wrong while it is made is thrown instead. -/
def raise {α : Type} (kind : ExceptionKind) (message : Option String) : Guest α := do
  let ref ← newThrowable kind.className message
  throw (.exception ref)

/-- Throws for a null reference. -/
def raiseNull {α : Type} (message : String) : Guest α :=
  raise .nullPointerException (some message)

/-- The message of an index outside an array or a string. -/
def outOfBoundsText (index : Int32) (size : Nat) : String :=
  s!"Index {index.toInt} out of bounds for length {size}"

/-- A live object. -/
def classOf (ref : Ref) : Guest ClassId := do require ((← get).heap.class? ref) (.notLive ref)

/-- A new array of zeros; a negative size is refused. -/
def newArray (id : ClassId) (size : Int32) : Guest Ref :=
  if size < 0 then raise .negativeArraySizeException (some (toString size.toInt))
  else newZeroArray id size.toNatClampNeg

/-! ### Canonical objects -/

/-- The canonical string of a text, made on first use. -/
def internString (text : String) : Guest Ref := do
  match (← get).interned[text]? with
  | some ref => pure ref
  | none => do
    let ref ← newString text
    modify fun machine => machine.intern text ref
    pure ref

/-- The canonical string of an object's text: the object itself, if there was
none. -/
def internObject? (ref : Ref) : Guest (Option Ref) := do
  let machine ← get
  match machine.stringText? ref with
  | none => pure none
  | some text =>
    match machine.interned[text]? with
    | some canonical => pure (some canonical)
    | none => do
      modify fun machine => machine.intern text ref
      pure (some ref)

/-- The class object of a class, made on first use. -/
def mirror (id : ClassId) : Guest Ref := do
  let machine ← get
  match (machine.cls id).mirror with
  | some ref => pure ref
  | none => do
    let known := machine.known
    let ref ← newInstance known.cls
    modify fun machine =>
      (machine.modifyHeap fun heap =>
        (heap.modifyFields ref fun fields =>
          fields.set known.classNumber (UInt32.ofNat id.index)).setSticky ref).modifyClass id
        fun cls => { cls with mirror := some ref }
    pure ref

/-- A shallow copy of an object. Instances have to allow it. -/
def cloneObject (ref : Ref) : Guest Ref := do
  let machine ← get
  match machine.heap.get? ref with
  | none => fault (.cloneOfDead ref)
  | some object =>
    let copy (hash : Int32) : Object := { cls := object.cls, hash, body := object.body }
    match object.body with
    | .array _ => alloc object.payload copy
    | .instance _ =>
      if machine.registry.isAssignable object.cls machine.known.cloneable then
        alloc object.payload copy
      else
        raise .cloneNotSupportedException (some (machine.displayName object.cls))

end Guest

end Jvm
