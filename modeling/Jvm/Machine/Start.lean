import Jvm.Bootstrap
import Jvm.Machine.Allocate

/-!
# Starting a machine

A machine starts with the core classes linked and with the object that is thrown
when the heap is full. User classes are found behind the bootstrap library.
-/

namespace Jvm

/-- The linked core classes, by what the machine uses them for. -/
structure CoreClasses where
  object : ClassId
  cls : ClassId
  string : ClassId
  byteArray : ClassId
  cloneable : ClassId
  throwable : ClassId
  printStream : ClassId
  thread : ClassId
  deriving DecidableEq

namespace CoreClasses

/-- Loads the core classes. -/
def load (path : ClassPath) : Linking CoreClasses := do
  let load (name : String) : Linking ClassId := Linking.load path [] name
  pure {
    object := ← load ClassTable.objectName
    cls := ← load "java/lang/Class"
    string := ← load "java/lang/String"
    byteArray := ← load "[B"
    cloneable := ← load ClassTable.cloneableName
    throwable := ← load "java/lang/Throwable"
    printStream := ← load "java/io/PrintStream"
    thread := ← load "java/lang/Thread" }

/-- Slot of a field that a core class has to have. -/
def slotOf (table : ClassTable) (cls : ClassId) (name descriptor : String) : Except Error Nat :=
  match table.lookupField cls name descriptor with
  | some (_, field) => .ok field.slot.toNat
  | none => .error (.invalidState (.bootstrapLacksField (table.get cls).name name))

/-- Records the classes and the slots that the machine uses. -/
def known (core : CoreClasses) (table : ClassTable) : Except Error WellKnown := do
  pure {
    object := core.object, cls := core.cls, string := core.string
    byteArray := core.byteArray, cloneable := core.cloneable
    throwable := core.throwable, thread := core.thread
    stringValue := ← slotOf table core.string "value" "[B"
    stringCoder := ← slotOf table core.string "coder" "B"
    stringHash := ← slotOf table core.string "hash" "I"
    classNumber := ← slotOf table core.cls "classId" "I"
    throwableMessage := ← slotOf table core.throwable "detailMessage" "Ljava/lang/String;"
    streamDescriptor := ← slotOf table core.printStream "fd" "I"
    threadExecution := ← slotOf table core.thread "eetop" "I" }

end CoreClasses

namespace Heap

/-- An empty heap with the settings of a configuration. A stress interval of zero
means none. -/
def ofConfig (config : Config) : Heap :=
  { limit := config.heapLimit, threshold := config.gcThreshold
    stress := config.gcStress.filter (· ≠ 0), hashes := config.surroundings.hashes
    hashSeed := config.surroundings.hashSeed }

end Heap

namespace Machine

/-- A machine whose classes are linked and whose heap is empty. -/
def linked (config : Config) (path : ClassPath) : Except Error Machine := do
  let (loaded, registry) := (Registry.ofPath path).link CoreClasses.load
  let core ← loaded.mapError .load
  let known ← core.known registry.toClassTable
  pure {
    config, registry, known
    heap := Heap.ofConfig config
    exec := Execution.idle Execution.mainId config.stackSlots
    clock := config.surroundings.clock }

/-- Makes the object that is thrown when the heap is full. -/
def prepareOutOfMemory (machine : Machine) : Except Error Machine :=
  let make : Guest Ref :=
    Guest.newThrowable ExceptionKind.outOfMemoryError.className (some "Java heap space")
  match make machine with
  | .ok ref machine =>
    .ok { machine.modifyHeap fun heap => heap.setSticky ref with outOfMemory := some ref }
  | .error (.fatal error) _ => .error error
  | .error (.exception _) _ => .error .outOfMemory

/-- Starts a machine with user classes. -/
def start (config : Config) (classes : ClassPath) : Except Error Machine := do
  let bootstrap ← Bootstrap.classPath.mapError .load
  let machine ← linked config (bootstrap ++ classes)
  machine.prepareOutOfMemory

end Machine

end Jvm
