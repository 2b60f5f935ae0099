import Jvm.Registry.Basic

/-!
# Layout

Placing the members of a class file. Instance fields continue behind those of
the superclass and static fields start at zero; each takes as many slots as its
kind. Slot numbers are 16-bit numbers.
-/

namespace Jvm

/-- Next free slots, and the slots that hold references so far. -/
structure Layout where
  instanceSlots : UInt16 := 0
  refSlots : List UInt16 := []
  staticSlots : UInt16 := 0
  staticRefSlots : List UInt16 := []
  deriving DecidableEq, Inhabited

namespace Layout

/-- The layout that a subclass continues. -/
def below (superclass : Option Class) : Layout :=
  match superclass with
  | some above => { instanceSlots := above.instanceSlots, refSlots := above.refSlots }
  | none => {}

/-- Appends a slot to a list of reference slots, if it holds a reference. -/
def noteRef (kind : Kind) (slot : UInt16) (slots : List UInt16) : List UInt16 :=
  if kind.isReference then slots ++ [slot] else slots

/-- Places one field. -/
def place (layout : Layout) (info : FieldInfo) : Except LoadError (Field × Layout) :=
  match Kind.ofDescriptor info.descriptor with
  | none => .error (.invalidFormat (.badFieldDescriptor info.descriptor))
  | some kind =>
    let width := UInt16.ofNat kind.slots
    let isStatic := Access.has info.flags Access.isStatic
    let slot := if isStatic then layout.staticSlots else layout.instanceSlots
    let field : Field :=
      { name := info.name, descriptor := info.descriptor, flags := info.flags, kind, slot
        constantValue := info.constantValue }
    if isStatic then
      .ok (field, { layout with
        staticSlots := slot + width
        staticRefSlots := noteRef kind slot layout.staticRefSlots })
    else
      .ok (field, { layout with
        instanceSlots := slot + width
        refSlots := noteRef kind slot layout.refSlots })

/-- Places fields in their order. -/
def placeAll (layout : Layout) : List FieldInfo → Except LoadError (List Field × Layout)
  | [] => .ok ([], layout)
  | info :: rest => do
    let (field, layout) ← layout.place info
    let (fields, layout) ← layout.placeAll rest
    pure (field :: fields, layout)

end Layout

/-- Links a method of a class. -/
def Method.link (owner : ClassId) (info : MethodInfo) : Except LoadError Method := do
  let type ← MethodType.parse info.descriptor
  pure
    { owner, name := info.name, descriptor := info.descriptor, flags := info.flags
      params := type.params, ret := type.ret, argSlots := type.argSlots, code := info.code
      native := none }

/-- Links a class file whose ancestors are linked. -/
def Class.link (id : ClassId) (file : ClassFile) (superclass : Option Class)
    (interfaces : List ClassId) : Except LoadError Class := do
  let (fields, layout) ← (Layout.below superclass).placeAll file.fields.toList
  let methods ← file.methods.toList.mapM (Method.link id)
  pure
    { id, name := file.name, flags := file.flags, superclass := superclass.map (·.id), interfaces
      pool := file.pool, fields, methods := methods.toArray
      instanceSlots := layout.instanceSlots, refSlots := layout.refSlots
      staticSlots := layout.staticSlots, staticRefSlots := layout.staticRefSlots
      sourceFile := file.sourceFile }

end Jvm
