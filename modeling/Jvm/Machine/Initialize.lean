import Jvm.Machine.Frames

/-!
# Starting class initialization

A class is initialized before its first use. Initialization gives its static
fields their initial values and pushes a frame for its initializer and for those
of its superclasses, which then run first; the instruction that asked runs again
afterwards. A class that is being initialized already counts as ready.
-/

namespace Jvm

/-- Where a static field starts, and the pool index of what it starts as. -/
def Class.initialValues (cls : Class) : List (Field × UInt16) :=
  (cls.fields.filter Field.isStatic).filterMap fun field =>
    field.constantValue.map fun index => (field, index)

namespace Guest

/-- Runs a step; if it throws, changes the machine before the throw goes on. -/
@[inline] def onThrow {α : Type} (step : Guest α) (change : Machine → Machine) : Guest α :=
  fun machine =>
    match step machine with
    | .ok value machine => .ok value machine
    | .error thrown machine => .error thrown (change machine)

/-- The initial value of a static field of a kind. -/
def initialValue (id : ClassId) (kind : Kind) (index : UInt16) : Guest Value := do
  let pool := ((← get).cls id).pool
  match kind with
  | .long => pure (.long (← ofLoad (pool.long index)))
  | .double => pure (.double (← ofLoad (pool.double index)))
  | .float => pure (.float (← ofLoad (pool.float index)))
  | .reference => pure (.ref (some (← resolveString id index)))
  | _ => pure (.int (← ofLoad (pool.integer index)))

/-- Writes to a static field of a class whose static fields exist. -/
def putStatic (id : ClassId) (slot : Nat) (value : Value) : Guest Unit :=
  modify fun machine => machine.modifyClass id fun cls =>
    { cls with statics := cls.statics.map fun statics => statics.write slot value }

/-- Stores the initial values of static fields. -/
def storeInitialValues (id : ClassId) : List (Field × UInt16) → Guest Unit
  | [] => pure ()
  | (field, index) :: rest => do
    let value ← initialValue id field.kind index
    putStatic id field.slot.toNat value
    storeInitialValues id rest

/-- Creates the static fields of a class with their initial values. -/
def prepareStatics (id : ClassId) : Guest Unit := do
  modify fun machine => machine.modifyClass id fun cls =>
    { cls with statics := some (Fields.ofSize cls.staticSlots.toNat) }
  storeInitialValues id ((← get).cls id).initialValues

/-- Sets the state of a class. -/
def setInitState (id : ClassId) (state : InitState) : Guest Unit :=
  modify fun machine => machine.modifyClass id fun cls => { cls with initState := state }

/-- A change that marks a class as failed. -/
def markFailed (id : ClassId) (machine : Machine) : Machine :=
  machine.modifyClass id fun cls => { cls with initState := .failed }

/-- Pushes the frame of a class's initializer, if it has one. -/
def pushInitializer (id : ClassId) (pc : UInt32) : Guest Bool := do
  match ((← get).cls id).initializer? with
  | none => pure false
  | some method => do
    onThrow (pushFrame method pc pc) (markFailed id)
    pure true

/-- Starts initializing the classes of a superclass chain, nearest first. -/
def initializeChain : List ClassId → UInt32 → Guest Bool
  | [], _ => pure false
  | id :: above, pc => do
    match ((← get).cls id).initState with
    | .initialized | .initializing => pure false
    | .failed => do
      let name := (← get).displayName id
      raise .noClassDefFoundError (some s!"Could not initialize class {name}")
    | .uninitialized => do
      prepareStatics id
      setInitState id .initializing
      let pushed ← pushInitializer id pc
      let pushedAbove ←
        onThrow (initializeChain above (if pushed then 0 else pc)) fun machine =>
          if pushed then machine else markFailed id machine
      if !pushed && !pushedAbove then setInitState id .initialized
      pure (pushed || pushedAbove)

/-- Starts initializing a class that is about to be used by the instruction at a
pc. Whether initializers have to run first. -/
def ensureInitialized (id : ClassId) (pc : UInt32) : Guest Bool := do
  let machine ← get
  match (machine.cls id).initState with
  | .initialized | .initializing => pure false
  | _ => initializeChain (machine.registry.superChain id) pc

end Guest

end Jvm
