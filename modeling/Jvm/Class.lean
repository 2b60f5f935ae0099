import Jvm.ClassFile.Basic
import Jvm.Descriptor
import Jvm.Monitor
import Jvm.Native.Basic
import Jvm.Slots.Fields

/-!
# Linked classes

Linking gives a class an id, replaces the names of its ancestors by ids, places
its fields in slots and parses the descriptors of its methods. What changes
while programs run is also here: resolved constants, static fields, the progress
of initialization, the class object and the class monitor.
-/

namespace Jvm

/-- A field with its place. -/
structure Field where
  name : String
  descriptor : String
  flags : UInt16
  kind : Kind
  slot : UInt16
  /-- Pool index of the initial value of a static field. -/
  constantValue : Option UInt16
  deriving DecidableEq, Inhabited

def Field.isStatic (field : Field) : Bool := Access.has field.flags Access.isStatic

/-- A linked method. -/
structure Method where
  owner : ClassId
  name : String
  descriptor : String
  flags : UInt16
  params : List Kind
  /-- `none` for `void`. -/
  ret : Option Kind
  /-- Slots of the arguments without the receiver. -/
  argSlots : UInt16
  code : Option Code
  /-- The native found for the method, once looked up. -/
  native : Option Native
  deriving Inhabited

namespace Method

def isStatic (method : Method) : Bool := Access.has method.flags Access.isStatic
def isNative (method : Method) : Bool := Access.has method.flags Access.isNative
def isAbstract (method : Method) : Bool := Access.has method.flags Access.isAbstract
def isSynchronized (method : Method) : Bool := Access.has method.flags Access.isSynchronized
def isPrivate (method : Method) : Bool := Access.has method.flags Access.isPrivate
def isConstructor (method : Method) : Bool := method.name == "<init>"
def isInitializer (method : Method) : Bool := method.name == "<clinit>"

/-- Slots of all arguments, the receiver included. -/
def frameArgSlots (method : Method) : UInt16 :=
  method.argSlots + if method.isStatic then 0 else 1

/-- Slots of the result. -/
def retSlots (method : Method) : Nat := method.ret.elim 0 Kind.slots

/-- Slots of the locals of a frame: never fewer than those of the arguments. -/
def frameLocals (method : Method) : Nat :=
  let arguments := method.frameArgSlots.toNat
  method.code.elim arguments fun code => max code.maxLocals.toNat arguments

/-- The line of a pc. -/
def lineOf (method : Method) (pc : UInt32) : Option UInt32 :=
  (method.code.bind fun code => code.lineOf pc).map (·.toUInt32)

/-- First pc of a line. -/
def pcOfLine (method : Method) (line : UInt32) : Option UInt32 :=
  method.code.bind fun code => code.pcOfLine line

end Method

/-- Progress of a class's static initialization. -/
inductive InitState where
  | uninitialized | initializing | initialized
  /-- An initializer completed abruptly. -/
  | failed
  deriving DecidableEq, Inhabited, Repr

def InitState.name : InitState → String
  | .uninitialized => "Uninitialized"
  | .initializing => "Initializing"
  | .initialized => "Initialized"
  | .failed => "Failed"

/-- What makes a class an array class. -/
structure ArrayInfo where
  dimensions : Nat
  /-- Storage kind of the elements. -/
  element : Kind
  /-- The class of reference elements. -/
  component : Option ClassId
  deriving DecidableEq, Inhabited

/-- A linked class. -/
structure Class where
  id : ClassId
  name : String
  flags : UInt16
  superclass : Option ClassId
  interfaces : List ClassId
  pool : ConstantPool := {}
  fields : List Field := []
  methods : Array Method := #[]
  /-- Slots of an instance, inherited ones included. -/
  instanceSlots : UInt16 := 0
  /-- Slots of an instance that hold references, inherited ones included. -/
  refSlots : List UInt16 := []
  staticSlots : UInt16 := 0
  staticRefSlots : List UInt16 := []
  /-- The static fields, from the start of initialization on. -/
  statics : Option Fields := none
  initState : InitState := .uninitialized
  /-- The class object, once there is one. -/
  mirror : Option Ref := none
  monitor : Monitor := Monitor.free
  array : Option ArrayInfo := none
  sourceFile : Option String := none
  deriving Inhabited

namespace Class

def isInterface (cls : Class) : Bool := Access.has cls.flags Access.isInterface
def isAbstract (cls : Class) : Bool := Access.has cls.flags Access.isAbstract
def isArray (cls : Class) : Bool := cls.array.isSome

/-- A class name with dots, as guest programs see it. -/
def dotted (name : String) : String := name.map fun char => if char = '/' then '.' else char

/-- The name with dots. -/
def displayName (cls : Class) : String := dotted cls.name

/-- The class's own method of this name and descriptor. -/
def declaredMethod? (cls : Class) (name descriptor : String) : Option MethodId :=
  (cls.methods.findIdx? fun method => method.name == name && method.descriptor == descriptor).map
    fun index => ⟨cls.id, UInt16.ofNat index⟩

/-- The class's own static initializer. -/
def initializer? (cls : Class) : Option MethodId := cls.declaredMethod? "<clinit>" "()V"

/-- The class's own field of this name and descriptor. -/
def declaredField? (cls : Class) (name descriptor : String) : Option Field :=
  cls.fields.find? fun field => field.name == name && field.descriptor == descriptor

/-- References that the class itself holds: its static fields and its object. -/
def references (cls : Class) : List Ref :=
  let statics := cls.statics.elim [] fun statics =>
    cls.staticRefSlots.filterMap fun slot => statics.getRef slot.toNat
  statics ++ cls.mirror.toList

end Class

end Jvm
