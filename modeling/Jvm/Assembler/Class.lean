import Jvm.Assembler.Code
import Jvm.ClassFile.Basic

/-!
# Assembling classes

A class under assembly is a name, a superclass and parts that are added one by
one. The order of the parts decides the numbers of the constants. The first
fault of a method body is kept and refuses the whole class at the end.
-/

namespace Jvm.Assembler

/-- A class under assembly. Fields and methods are kept encoded. -/
structure ClassBuilder where
  pool : PoolBuilder := {}
  flags : UInt16
  thisClass : UInt16
  superClass : UInt16
  interfaces : Array UInt16 := #[]
  fields : Array (Array UInt8) := #[]
  methods : Array (Array UInt8) := #[]
  /-- Numbers of the attribute's name and of the file name. -/
  sourceFile : Option (UInt16 × UInt16) := none
  fault : Option LoadError := none

/-- Initial value of a static field. -/
inductive Initial where
  | int (value : Int32)
  | long (value : Int64)
  | float (bits : UInt32)
  | double (bits : UInt64)
  | string (text : String)
  deriving DecidableEq

/-- The number of an initial value's constant. -/
def Initial.number : Initial → Numbering UInt16
  | .int value => Numbering.item (.integer value)
  | .long value => Numbering.item (.long value)
  | .float bits => Numbering.item (.float bits)
  | .double bits => Numbering.item (.double bits)
  | .string text => Numbering.string text

/-- One part of a class. -/
inductive Part where
  | flags (flags : UInt16)
  | interface (name : String)
  | source (file : String)
  | field (flags : UInt16) (name descriptor : String) (initial : Option Initial)
  | method (flags : UInt16) (name descriptor : String) (body : List Line)
  /-- An abstract or native method. -/
  | bodiless (flags : UInt16) (name descriptor : String)

namespace Part

/-- A method by what it has: a native one has no body, whatever is given. -/
def ofMethod (flags : UInt16) (name descriptor : String) (native : Bool)
    (body : Option (List Line)) : Part :=
  if native then .bodiless (flags ||| Access.isNative) name descriptor
  else
    match body with
    | some body => .method flags name descriptor body
    | none => .bodiless flags name descriptor

end Part

namespace ClassBuilder

/-- Starts a class; without a superclass it is a root. -/
def start (name : String) (superclass : Option String) : ClassBuilder :=
  let naming : Numbering (UInt16 × UInt16) := do
    let this ← Numbering.cls name
    let above ←
      match superclass with
      | some superclass => Numbering.cls superclass
      | none => pure 0
    pure (this, above)
  let ((this, above), pool) := naming.run {}
  { pool, flags := Access.isPublic ||| Access.hasSuper, thisClass := this, superClass := above }

/-- Starts an interface. -/
def startInterface (name : String) : ClassBuilder :=
  { start name (some "java/lang/Object") with
    flags := Access.isPublic ||| Access.isInterface ||| Access.isAbstract }

/-- Flags, name and descriptor of a member. -/
def memberHeader (flags : UInt16) (name descriptor : String) : Numbering (Array UInt8) := do
  let name ← Numbering.utf8 name
  let descriptor ← Numbering.utf8 descriptor
  pure (Bytes.ofShort flags ++ Bytes.ofShort name ++ Bytes.ofShort descriptor).toArray

/-- A field as the class file holds it. -/
def fieldBytes (flags : UInt16) (name descriptor : String) (initial : Option Initial) :
    Numbering (Array UInt8) := do
  let header ← memberHeader flags name descriptor
  match initial with
  | none => pure (header ++ Bytes.ofShort 0)
  | some initial =>
    let attributeName ← Numbering.utf8 "ConstantValue"
    let value ← initial.number
    pure (header ++ Bytes.ofShort 1 ++ Bytes.ofShort attributeName ++ Bytes.ofWord 2 ++
      Bytes.ofShort value)

/-- A method with a body as the class file holds it. -/
def methodBytes (flags : UInt16) (name descriptor : String) (body : List Line) :
    ExceptT LoadError Numbering (Array UInt8) := do
  let header ← (memberHeader flags name descriptor : Numbering (Array UInt8))
  let type ← (MethodType.parse descriptor : Except LoadError MethodType)
  let receiver : UInt16 := if Access.has flags Access.isStatic then 0 else 1
  let code ← codeAttribute (type.argSlots + receiver) body
  pure (header ++ Bytes.ofShort 1 ++ code)

/-- Adds a part. -/
def add (builder : ClassBuilder) : Part → ClassBuilder
  | .flags flags => { builder with flags }
  | .interface name =>
    let (index, pool) := (Numbering.cls name).run builder.pool
    { builder with pool, interfaces := builder.interfaces.push index }
  | .source file =>
    let naming : Numbering (UInt16 × UInt16) := do
      let attributeName ← Numbering.utf8 "SourceFile"
      let file ← Numbering.utf8 file
      pure (attributeName, file)
    let (numbers, pool) := naming.run builder.pool
    { builder with pool, sourceFile := some numbers }
  | .field flags name descriptor initial =>
    let (bytes, pool) := (fieldBytes flags name descriptor initial).run builder.pool
    { builder with pool, fields := builder.fields.push bytes }
  | .method flags name descriptor body =>
    match (methodBytes flags name descriptor body).run.run builder.pool with
    | (.ok bytes, pool) => { builder with pool, methods := builder.methods.push bytes }
    | (.error error, pool) => { builder with pool, fault := builder.fault.or (some error) }
  | .bodiless flags name descriptor =>
    let (header, pool) := (memberHeader flags name descriptor).run builder.pool
    { builder with pool, methods := builder.methods.push (header ++ Bytes.ofShort 0) }

/-- A counted sequence of encoded members. -/
def memberBytes (members : Array (Array UInt8)) : Array UInt8 :=
  members.foldl (· ++ ·) (Bytes.ofShort (UInt16.ofNat members.size)).toArray

/-- The class file, unless a part was faulty. -/
def toBytes (builder : ClassBuilder) : Except LoadError (Array UInt8) :=
  match builder.fault with
  | some error => .error error
  | none =>
    let source : List UInt8 :=
      match builder.sourceFile with
      | some (attributeName, file) =>
        Bytes.ofShort 1 ++ Bytes.ofShort attributeName ++ Bytes.ofWord 2 ++ Bytes.ofShort file
      | none => Bytes.ofShort 0
    .ok
      ((Bytes.ofWord 0xCAFEBABE ++ Bytes.ofShort 0 ++ Bytes.ofShort 52).toArray ++
        builder.pool.encode ++
        (Bytes.ofShort builder.flags ++ Bytes.ofShort builder.thisClass ++
          Bytes.ofShort builder.superClass ++
          Bytes.ofShort (UInt16.ofNat builder.interfaces.size) ++
          builder.interfaces.toList.flatMap Bytes.ofShort) ++
        memberBytes builder.fields ++ memberBytes builder.methods ++ source)

end ClassBuilder

/-- A class to assemble: what it starts as, and its parts in order. -/
structure ClassSpec where
  name : String
  superclass : Option String := some "java/lang/Object"
  isInterface : Bool := false
  parts : List Part := []

namespace ClassSpec

/-- A class by what it has, with the parts in the order flags, interfaces, source file and
members. -/
def ofMembers (name : String) (superclass : Option String) (isInterface : Bool)
    (flags : Option UInt16) (interfaces : List String) (source : Option String)
    (fields methods : List Part) : ClassSpec :=
  { name
    superclass
    isInterface
    parts :=
      (flags.map Part.flags).toList ++ interfaces.map Part.interface ++
        (source.map Part.source).toList ++ fields ++ methods }

/-- The builder with every part added. -/
def builder (spec : ClassSpec) : ClassBuilder :=
  spec.parts.foldl ClassBuilder.add
    (if spec.isInterface then .startInterface spec.name else .start spec.name spec.superclass)

/-- Assembles the class. -/
def assemble (spec : ClassSpec) : Except LoadError (Array UInt8) := spec.builder.toBytes

end ClassSpec

end Jvm.Assembler
