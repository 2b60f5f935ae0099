import Jvm.Instr
import Jvm.Machine.Call

/-!
# Instructions on members and types

Field access, calls, object creation and type tests. Each resolves the constant
that it names first; one that uses a class starts its initialization and runs
again once that is done.
-/

namespace Jvm

namespace Machine

/-- Name of a resolved field, for messages. -/
def fieldName (machine : Machine) (field : ResolvedField) : String :=
  let declared := (machine.cls field.owner).fields.find? fun candidate =>
    candidate.slot == field.slot && candidate.isStatic == field.isStatic
  declared.elim s!"#{field.slot}" (·.name)

/-- Class and name of a resolved field, for messages. -/
def fieldLabel (machine : Machine) (field : ResolvedField) : String :=
  machine.displayName field.owner ++ "." ++ machine.fieldName field

end Machine

namespace Guest

/-- Goes on at a pc. -/
def proceed (pc : UInt32) : Guest Step := do
  modify fun machine => machine.modifyExec fun exec => { exec with pc }
  pure .next

/-- Throws: a member is static, or is not, against what the instruction asks. -/
def mismatch {α : Type} (message : String) : Guest α :=
  raise .incompatibleClassChangeError (some message)

/-! ### Fields -/

/-- The static field that an entry names; `none` if its class has to be
initialized first. -/
def staticField? (id : ClassId) (index : UInt16) (pc : UInt32) : Guest (Option ResolvedField) := do
  let field ← resolveField id index
  if !field.isStatic then
    mismatch ("Expected static field " ++ (← get).fieldLabel field)
  else if ← ensureInitialized field.owner pc then pure none
  else pure (some field)

/-- Pushes a static field. -/
def getStatic (id : ClassId) (index : UInt16) (pc next : UInt32) : Guest Step := do
  match ← staticField? id index pc with
  | none => pure .next
  | some field => do
    let statics ← require ((← get).cls field.owner).statics .classHasNoStatics
    let value := statics.read field.slot.toNat field.kind
    onStack fun stack => stack.pushValue value
    proceed next

/-- Pops a value into a static field. -/
def setStatic (id : ClassId) (index : UInt16) (pc next : UInt32) : Guest Step := do
  match ← staticField? id index pc with
  | none => pure .next
  | some field => do
    let value ← fromStack fun stack => stack.popValue field.kind
    if ((← get).cls field.owner).statics.isNone then fault .classHasNoStatics
    putStatic field.owner field.slot.toNat value
    proceed next

/-- The instance field that an entry names. -/
def instanceField (id : ClassId) (index : UInt16) : Guest ResolvedField := do
  let field ← resolveField id index
  if field.isStatic then
    mismatch ("Expected non-static field " ++ (← get).fieldLabel field)
  else pure field

/-- Replaces an object by a field of it. -/
def getField (id : ClassId) (index : UInt16) (next : UInt32) : Guest Step := do
  let field ← instanceField id index
  match ← fromStack Stack.popRef with
  | none => do
    let name := (← get).fieldName field
    raiseNull s!"Cannot read field \"{name}\" because value is null"
  | some ref => do
    let fields ← require ((← get).heap.fields? ref) (.readOfNonInstance ref)
    let value := fields.read field.slot.toNat field.kind
    onStack fun stack => stack.pushValue value
    proceed next

/-- Pops a value and an object into a field of it. -/
def setField (id : ClassId) (index : UInt16) (next : UInt32) : Guest Step := do
  let field ← instanceField id index
  let value ← fromStack fun stack => stack.popValue field.kind
  match ← fromStack Stack.popRef with
  | none => do
    let name := (← get).fieldName field
    raiseNull s!"Cannot assign field \"{name}\" because value is null"
  | some ref => do
    if ((← get).heap.fields? ref).isNone then fault (.writeOfNonInstance ref)
    modify fun machine => machine.modifyHeap fun heap => heap.modifyFields ref fun fields =>
      fields.write field.slot.toNat value
    proceed next

/-! ### Calls -/

/-- The method that a call on a receiver runs. -/
def selectTarget (mode : CallMode) (receiver : Ref) (resolved : MethodId) : Guest MethodId := do
  match mode with
  | .exact => pure resolved
  | _ => do
    let cls ← require ((← get).heap.class? receiver) (.receiverNotLive receiver)
    match ← linking fun registry => registry.resolveVirtual cls resolved with
    | some target => pure target
    | none => raise .abstractMethodError (some ((← get).methodLabel resolved))

/-- Calls an instance method on the receiver below its arguments. -/
def invokeInstance (reentry : Reentry) (mode : CallMode) (id : ClassId) (index : UInt16)
    (pc next : UInt32) : Guest Step := do
  let resolved ← resolveMethod id index
  let machine ← get
  if resolved.isStatic then
    mismatch ("Expecting non-static method " ++ machine.methodLabel resolved.method)
  else
    match machine.exec.stack.peekRef (resolved.argSlots.toNat - 1) with
    | none =>
      let owner := machine.displayName resolved.method.owner
      let name := (machine.method resolved.method).name
      raiseNull s!"Cannot invoke \"{owner}.{name}()\" because value is null"
    | some receiver => do
      let target ← selectTarget mode receiver resolved.method
      invoke reentry target pc next

/-- Calls a static method once its class is initialized. -/
def invokeStatic (reentry : Reentry) (id : ClassId) (index : UInt16) (pc next : UInt32) :
    Guest Step := do
  let resolved ← resolveMethod id index
  if !resolved.isStatic then
    mismatch ("Expected static method " ++ (← get).methodLabel resolved.method)
  else if ← ensureInitialized resolved.method.owner pc then pure .next
  else invoke reentry resolved.method pc next

/-! ### Objects and types -/

/-- Pushes a new object. -/
def pushInstance (id : ClassId) (index : UInt16) (pc next : UInt32) : Guest Step := do
  let target ← resolveClass id index
  let cls := (← get).cls target
  if cls.isInterface || cls.isAbstract then
    raise .instantiationError (some cls.displayName)
  else if ← ensureInitialized target pc then pure .next
  else do
    let ref ← newInstance target
    onStack fun stack => stack.pushRef (some ref)
    proceed next

/-- Replaces a count by a new array of a class. -/
def pushArray (id : ClassId) (count : Slot) (next : UInt32) : Guest Step := do
  let array ← newArray id count.toInt32
  onStack fun stack => stack.pushRef (some array)
  proceed next

/-- Replaces a count by a new array of a primitive kind. -/
def pushPrimitiveArray (code : UInt8) (next : UInt32) : Guest Step := do
  let element ← require (PrimitiveArray.ofCode code) (.badElementType code)
  let count ← fromStack Stack.pop
  pushArray (← loadClass element.className) count next

/-- Replaces a count by a new array of references. -/
def pushRefArray (id : ClassId) (index : UInt16) (next : UInt32) : Guest Step := do
  let component ← resolveClass id index
  let count ← fromStack Stack.pop
  pushArray (← arrayClassOf component) count next

/-- Throws unless the top reference is null or of a class. -/
def checkCast (id : ClassId) (index : UInt16) (next : UInt32) : Guest Step := do
  let target ← resolveClass id index
  match (← get).exec.stack.peekRef 0 with
  | none => proceed next
  | some ref => do
    let held ← classOf ref
    let machine ← get
    if machine.registry.isAssignable held target then proceed next
    else
      raise .classCastException
        (some (s!"class {machine.displayName held} cannot be cast to class " ++
          machine.displayName target))

/-- Replaces the top reference by whether it is of a class. -/
def testInstance (id : ClassId) (index : UInt16) (next : UInt32) : Guest Step := do
  let target ← resolveClass id index
  let answer ←
    match ← fromStack Stack.popRef with
    | none => pure false
    | some ref => do
      let held ← classOf ref
      pure ((← get).registry.isAssignable held target)
  onStack fun stack => stack.pushValue (ofBool answer)
  proceed next

/-- Pushes a literal, a string or a class object. -/
def pushConstant (id : ClassId) (index : UInt16) (next : UInt32) : Guest Step := do
  let value : Value ←
    match ← constantAt id index with
    | .integer value => pure (.int value)
    | .float bits => pure (.float bits)
    | .long value => pure (.long value)
    | .double bits => pure (.double bits)
    | .string _ | .resolvedString _ => do pure (ofRef (← resolveString id index))
    | .cls _ | .resolvedClass _ => do pure (ofRef (← mirror (← resolveClass id index)))
    | other => fatal (.unsupported ("ldc of " ++ other.tag.name))
  onStack fun stack => stack.pushValue value
  proceed next

/-! ### Monitors -/

/-- Takes the monitor of the top object; the object stays until that succeeds. -/
def enterMonitor (next : UInt32) : Guest Step := do
  match (← get).exec.stack.peekRef 0 with
  | none => do
    onStack fun stack => stack.discard 1
    raiseNull "Cannot enter synchronized block because value is null"
  | some ref => do
    if ← enterLock (.object ref) then do
      onStack fun stack => stack.discard 1
      proceed next
    else pure .blocked

/-- Releases the monitor of the top object. -/
def exitMonitor (next : UInt32) : Guest Step := do
  match ← fromStack Stack.popRef with
  | none => raiseNull "Cannot exit synchronized block because value is null"
  | some ref => do
    if ← exitLock (.object ref) then proceed next
    else raise .illegalMonitorStateException none

end Guest

end Jvm
