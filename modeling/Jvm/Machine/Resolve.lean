import Jvm.Machine.Allocate

/-!
# Resolving constants

An instruction names classes, members and strings by indices of its class's
constant pool. The first use of an entry resolves it and replaces it by what it
resolved to, so that later uses find the answer there. Resolution failures that
a program may handle are thrown; entries of the wrong kind end the execution.
-/

namespace Jvm.Guest

/-- The constant at an index of a class's pool. -/
def constantAt (id : ClassId) (index : UInt16) : Guest Constant := do
  ofLoad (((← get).cls id).pool.get index)

/-- Replaces a constant by what it resolved to. -/
def remember (id : ClassId) (index : UInt16) (resolved : Constant) : Guest Unit :=
  modify fun machine => machine.modifyClass id fun cls =>
    { cls with pool := cls.pool.set index resolved }

/-- Refuses an entry that cannot resolve to what is wanted. -/
def unresolvable {α : Type} (index : UInt16) (found : Constant) (wanted : ResolutionTarget) :
    Guest α :=
  fatal (.load (.invalidFormat (.unresolvable index found wanted)))

/-- The class that an entry names, or why there is none. Throws nothing. -/
def linkClass (id : ClassId) (index : UInt16) : Guest (Except LoadError ClassId) := do
  let pool := ((← get).cls id).pool
  match pool.get index with
  | .error error => pure (.error error)
  | .ok (.resolvedClass resolved) => pure (.ok resolved)
  | .ok (.cls nameIndex) =>
    match pool.utf8 nameIndex with
    | .error error => pure (.error error)
    | .ok name => do
      match ← loadRaw name with
      | .error error => pure (.error error)
      | .ok resolved => do
        remember id index (.resolvedClass resolved)
        pure (.ok resolved)
  | .ok other => pure (.error (.invalidFormat (.unresolvable index other .cls)))

/-- A missing class is thrown to the program; any other failure ends it. -/
def orMissingClass (loaded : Except LoadError ClassId) : Guest ClassId :=
  match loaded with
  | .ok id => pure id
  | .error (.notFound name) => raise .noClassDefFoundError (some name)
  | .error error => fatal (.load error)

/-- The class that an entry names. -/
def resolveClass (id : ClassId) (index : UInt16) : Guest ClassId := do
  orMissingClass (← linkClass id index)

/-- A class by name, for an instruction. -/
def loadClass (name : String) : Guest ClassId := do orMissingClass (← loadRaw name)

/-- The array class of a component class, for an instruction. -/
def arrayClassOf (component : ClassId) : Guest ClassId := do
  orMissingClass (← linking fun registry => registry.arrayOf component)

/-- The field that an entry names. -/
def resolveField (id : ClassId) (index : UInt16) : Guest ResolvedField := do
  match ← constantAt id index with
  | .resolvedField field => pure field
  | .fieldRef .. => do
    let member ← ofLoad (((← get).cls id).pool.member index)
    let owner ← resolveClass id member.classIndex
    let registry := (← get).registry
    match registry.lookupField owner member.name member.descriptor with
    | some (declaring, field) => do
      let resolved : ResolvedField :=
        { owner := declaring, slot := field.slot, kind := field.kind, isStatic := field.isStatic }
      remember id index (.resolvedField resolved)
      pure resolved
    | none =>
      raise .noSuchFieldError (some s!"{registry.displayName owner}.{member.name}")
  | other => unresolvable index other .field

/-- Looks up the method that a symbolic entry names. -/
def findMethod (id : ClassId) (index : UInt16) : Guest ResolvedMethod := do
  let member ← ofLoad (((← get).cls id).pool.member index)
  let owner ← resolveClass id member.classIndex
  let registry := (← get).registry
  match registry.lookupMethod owner member.name member.descriptor with
  | some found => do
    let method := registry.method found
    let resolved : ResolvedMethod :=
      { method := found, argSlots := method.frameArgSlots, isStatic := method.isStatic }
    remember id index (.resolvedMethod resolved)
    pure resolved
  | none =>
    raise .noSuchMethodError
      (some s!"'{member.descriptor} {registry.displayName owner}.{member.name}'")

/-- The method that an entry names. -/
def resolveMethod (id : ClassId) (index : UInt16) : Guest ResolvedMethod := do
  match ← constantAt id index with
  | .resolvedMethod method => pure method
  | .methodRef .. | .interfaceMethodRef .. => findMethod id index
  | other => unresolvable index other .method

/-- The canonical string that an entry holds. -/
def resolveString (id : ClassId) (index : UInt16) : Guest Ref := do
  match ← constantAt id index with
  | .resolvedString ref => pure ref
  | .string utf8Index => do
    let text ← ofLoad (((← get).cls id).pool.utf8 utf8Index)
    let ref ← internString text
    remember id index (.resolvedString ref)
    pure ref
  | other => unresolvable index other .string

end Jvm.Guest
