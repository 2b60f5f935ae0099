import Jvm.ConstantPool

/-!
# Class files

The decoded shape of a class file before linking: its constants, the names they
give to the class and its ancestors, and its members. A method's code keeps its
instructions as bytes, beside the exception handlers and the line table.
-/

namespace Jvm

/-- A range of code `[startPc, endPc)` protected by a handler. A catch type of
zero catches everything; any other names a class entry of the pool. -/
structure Handler where
  startPc : UInt16
  endPc : UInt16
  handlerPc : UInt16
  catchType : UInt16
  deriving DecidableEq, Inhabited, Repr

/-- Whether the handler protects the instruction at a pc. -/
def Handler.covers (handler : Handler) (pc : UInt32) : Bool :=
  handler.startPc.toUInt32 ≤ pc && pc < handler.endPc.toUInt32

/-- The source line of the code from a pc on. -/
structure LineEntry where
  startPc : UInt16
  line : UInt16
  deriving DecidableEq, Inhabited, Repr

/-- The code of a method. -/
structure Code where
  maxStack : UInt16 := 0
  maxLocals : UInt16 := 0
  bytecode : Array UInt8 := #[]
  handlers : List Handler := []
  lines : List LineEntry := []
  deriving DecidableEq, Inhabited, Repr

namespace Code

/-- The later of two line entries by start; the second wins a tie. -/
def laterEntry (best : Option LineEntry) (entry : LineEntry) : Option LineEntry :=
  match best with
  | some current => if entry.startPc < current.startPc then some current else some entry
  | none => some entry

/-- The line that holds a pc: that of the last entry to start at or before it. -/
def lineOf (code : Code) (pc : UInt32) : Option UInt16 :=
  ((code.lines.filter fun entry => entry.startPc.toUInt32 ≤ pc).foldl laterEntry none).map (·.line)

/-- First pc of a line. -/
def pcOfLine (code : Code) (line : UInt32) : Option UInt32 :=
  ((code.lines.filter fun entry => entry.line.toUInt32 = line).map fun entry =>
    entry.startPc.toUInt32).min?

end Code

/-- A field as a class file declares it. -/
structure FieldInfo where
  flags : UInt16
  name : String
  descriptor : String
  /-- Pool index of the initial value of a static field. -/
  constantValue : Option UInt16
  deriving DecidableEq, Inhabited, Repr

/-- A method as a class file declares it. -/
structure MethodInfo where
  flags : UInt16
  name : String
  descriptor : String
  code : Option Code
  deriving DecidableEq, Inhabited, Repr

/-- A decoded class file. -/
structure ClassFile where
  majorVersion : UInt16
  pool : ConstantPool
  flags : UInt16
  name : String
  superclass : Option String
  interfaces : List String
  fields : Array FieldInfo
  methods : Array MethodInfo
  sourceFile : Option String
  deriving DecidableEq, Inhabited

/-! ### Access flags -/

namespace Access

def isPublic : UInt16 := 0x0001
def isPrivate : UInt16 := 0x0002
def isProtected : UInt16 := 0x0004
def isStatic : UInt16 := 0x0008
def isFinal : UInt16 := 0x0010
/-- On a method. -/
def isSynchronized : UInt16 := 0x0020
/-- On a class; the same bit as a method's monitor flag. -/
def hasSuper : UInt16 := 0x0020
def isNative : UInt16 := 0x0100
def isInterface : UInt16 := 0x0200
def isAbstract : UInt16 := 0x0400

/-- Whether a flag word has a flag set. -/
def has (flags flag : UInt16) : Bool := flags &&& flag ≠ 0

end Access

end Jvm
