import Jvm.Constant
import Jvm.Monitor

/-!
# Errors

Loading a class fails for one of a fixed set of causes, and so does a call from
the host. Each cause is a constructor; its wording is one function of it.
-/

namespace Jvm

/-- What a look-up in a constant pool wanted to find. -/
inductive ConstantUse where
  | utf8 | integer | float | long | double | cls | nameAndType | member
  deriving DecidableEq, Repr

def ConstantUse.name : ConstantUse → String
  | .utf8 => "Utf8"
  | .integer => "Integer"
  | .float => "Float"
  | .long => "Long"
  | .double => "Double"
  | .cls => "Class"
  | .nameAndType => "NameAndType"
  | .member => "member reference"

/-- What an instruction wanted a constant to resolve to. -/
inductive ResolutionTarget where
  | cls | field | method | string
  deriving DecidableEq, Repr

def ResolutionTarget.name : ResolutionTarget → String
  | .cls => "a class"
  | .field => "a field reference"
  | .method => "a method reference"
  | .string => "a string"

/-- Why bytes or names do not describe a class. -/
inductive FormatFault where
  | cutShort (wanted offset : Nat)
  | badMagic
  | unsupportedVersion (major : UInt16)
  | badConstantTag (tag : UInt8) (index : UInt16)
  | badText (index : UInt16)
  | badPoolIndex (index : UInt16)
  | unexpectedConstant (index : UInt16) (found : ConstantTag) (wanted : ConstantUse)
  | unresolvable (index : UInt16) (found : Constant) (wanted : ResolutionTarget)
  | badDescriptor (text : String) (offset : Nat)
  | badCodeLength (length : Nat)
  | trailingBytes
  | misnamed (file declared : String)
  | duplicateClass (name : String)
  | noSuperclass (name : String)
  | badFieldDescriptor (descriptor : String)
  | tooManyDimensions (name : String)
  | badArrayName (name : String)
  /-- A cause that a host reports in its own words. -/
  | other (text : String)
  deriving DecidableEq

namespace FormatFault

def message : FormatFault → String
  | .cutShort wanted offset =>
    s!"out of range, expected {wanted} bytes at offset {offset}"
  | .badMagic => "cannot identify the magic number"
  | .unsupportedVersion major => s!"unsupported class file version {major}"
  | .badConstantTag tag index => s!"invalid constant tag {tag} at #{index}"
  | .badText index => s!"invalid CONSTANT_Utf8 at #{index}"
  | .badPoolIndex index => s!"invalid constant pool index {index}"
  | .unexpectedConstant index found wanted =>
    s!"constant pool #{index} is {found.name}, expected {wanted.name}"
  | .unresolvable index found wanted =>
    s!"constant #{index} is {found.describe}, expected {wanted.name}"
  | .badDescriptor text offset => s!"invalid descriptor {Text.quote text} at {offset}"
  | .badCodeLength length => s!"invalid code length {length}"
  | .trailingBytes => "extra bytes at the end of the class file"
  | .misnamed file declared => s!"{file} declares class {declared}"
  | .duplicateClass name => s!"duplicate class definition: {name}"
  | .noSuperclass name => s!"class {name} has no super class"
  | .badFieldDescriptor descriptor => s!"bad field descriptor {descriptor}"
  | .tooManyDimensions name => s!"too many dimensions in {name}"
  | .badArrayName name => s!"bad array class name {name}"
  | .other text => text

end FormatFault

/-- Why a well-formed class, or one under assembly, is refused. -/
inductive VerifyFault where
  | interfaceAsSuperclass (name superclass : String)
  | implementsClass (name superinterface : String)
  | unboundLabel (label : Nat)
  | branchTooFar (offset : Int)
  | badCodeLength (length : Nat)
  /-- A cause that a host reports in its own words. -/
  | other (text : String)
  deriving DecidableEq

namespace VerifyFault

def message : VerifyFault → String
  | .interfaceAsSuperclass name superclass =>
    s!"class {name} has interface {superclass} as super class"
  | .implementsClass name superinterface =>
    s!"class {name} implements non-interface {superinterface}"
  | .unboundLabel label => s!"unbound label {label}"
  | .branchTooFar offset => s!"branch offset {offset} too far"
  | .badCodeLength length => s!"invalid code length {length}"
  | .other text => text

end VerifyFault

/-- Why a class did not load. -/
inductive LoadError where
  | invalidFormat (fault : FormatFault)
  | verifyFailed (fault : VerifyFault)
  | notFound (name : String)
  | circularity (name : String)
  | io (text : String)
  deriving DecidableEq

namespace LoadError

def message : LoadError → String
  | .invalidFormat fault => "invalid class format: " ++ fault.message
  | .verifyFailed fault => "verification failed: " ++ fault.message
  | .notFound name => "class not found: " ++ name
  | .circularity name => "class circularity: " ++ name
  | .io text => "i/o error: " ++ text

/-- Name of the kind of an error. -/
def kind : LoadError → String
  | .invalidFormat _ => "InvalidFormat"
  | .verifyFailed _ => "VerifyFailed"
  | .notFound _ => "NotFound"
  | .circularity _ => "ClassCircularity"
  | .io _ => "Io"

end LoadError

/-- Description of a value in error messages. -/
def Value.describe : Value → String
  | .void => "Void"
  | .int value => Constant.wrapText "Int" (toString value.toInt)
  | .long value => Constant.wrapText "Long" (toString value.toInt)
  | .float bits => Constant.wrapText "Float" (Decimal.Style.descriptive.text .single bits.toNat)
  | .double bits =>
    Constant.wrapText "Double" (Decimal.Style.descriptive.text .double bits.toNat)
  | .ref none => "Object(None)"
  | .ref (some handle) =>
    Constant.wrapText "Object" (Constant.wrapText "Some" (toString handle))

/-- A list in brackets, as error messages show it. -/
def listText (items : List String) : String := "[" ++ ", ".intercalate items ++ "]"

/-- A request that does not fit the state of the machine. Methods are given by
their labels. -/
inductive StateFault where
  | noCode (method : String)
  | stackUnderflow (method : String)
  | noFrameToReturnFrom
  | noFrame
  | nothingToRun (exec : ExecId)
  | alreadyRunning (exec : ExecId)
  | noParkedExecution (exec : ExecId)
  | monitorOfHeld (method : String)
  | monitorHeldElsewhere
  | allBlocked
  | threadsBlocked (threads : List ExecId)
  | badArguments (arguments : List Value) (method : String)
  | thrownNotLive (ref : Ref)
  | receiverNotLive (ref : Ref)
  | notLive (ref : Ref)
  | notLiveObject (ref : Ref)
  | cloneOfDead (ref : Ref)
  | notArray (ref : Ref)
  | lengthOfNonArray (ref : Ref)
  | readOfNonInstance (ref : Ref)
  | writeOfNonInstance (ref : Ref)
  | notString (ref : Ref)
  | notMirror (ref : Ref)
  | incompatibleStore (kind : Kind) (ref : Ref)
  | notArrayClass (name : String)
  | badElementType (code : UInt8)
  | zeroDimensions (method : String) (pc : UInt32)
  | noDimensions
  | surplusDimensions
  | notWidenable (mnemonic : String)
  | pcOutsideCode (pc : UInt32) (method : String)
  | classHasNoStatics
  | staticsNotPrepared (name : String)
  | noStaticField (field owner : String)
  | isStatic (method : String)
  | isNotStatic (method : String)
  | bootstrapLacksField (owner field : String)
  | nothingStopped
  | noBytecode (method : String)
  | pcOutsideMethod (pc : UInt32) (method : String)
  | noCodeOnLine (method : String) (line : UInt32)
  /-- A cause that a host reports in its own words. -/
  | other (text : String)
  deriving DecidableEq

namespace StateFault

def message : StateFault → String
  | .noCode method => s!"{method} has no code"
  | .stackUnderflow method => s!"operand stack underflow calling {method}"
  | .noFrameToReturnFrom => "return without a frame"
  | .noFrame => "execution has no frame"
  | .nothingToRun exec => s!"execution {exec} has nothing to run"
  | .alreadyRunning exec => s!"execution {exec} is already running"
  | .noParkedExecution exec => s!"no parked execution {exec}"
  | .monitorOfHeld method => s!"monitor of {method} is held by another execution"
  | .monitorHeldElsewhere =>
    "monitor held by another execution; use SharedVm to run executions concurrently"
  | .allBlocked => "every execution is blocked on a monitor"
  | .threadsBlocked threads =>
    s!"threads {listText (threads.map toString)} are blocked on monitors nobody releases"
  | .badArguments arguments method =>
    s!"arguments {listText (arguments.map Value.describe)} do not match {method}"
  | .thrownNotLive ref => s!"thrown {ref} is not live"
  | .receiverNotLive ref => s!"receiver {ref} is not live"
  | .notLive ref => s!"{ref} is not live"
  | .notLiveObject ref => s!"{ref} is not a live object"
  | .cloneOfDead ref => s!"clone of dead {ref}"
  | .notArray ref => s!"{ref} is not an array"
  | .lengthOfNonArray ref => s!"arraylength on non-array {ref}"
  | .readOfNonInstance ref => s!"getfield on non-instance {ref}"
  | .writeOfNonInstance ref => s!"putfield on non-instance {ref}"
  | .notString ref => s!"{ref} is not a string"
  | .notMirror ref => s!"{ref} is not a class mirror"
  | .incompatibleStore kind ref => s!"{kind.name} store into an incompatible array {ref}"
  | .notArrayClass name => s!"{name} is not an array class"
  | .badElementType code => s!"bad newarray type {code}"
  | .zeroDimensions method pc =>
    s!"multianewarray with zero dimensions in {method} at pc {pc}"
  | .noDimensions => "multianewarray without dimensions"
  | .surplusDimensions => "multianewarray with too many dimensions"
  | .notWidenable mnemonic => s!"wide cannot modify {mnemonic}"
  | .pcOutsideCode pc method => s!"pc {pc} outside the code of {method}"
  | .classHasNoStatics => "class has no statics"
  | .staticsNotPrepared name => s!"statics of {name} are not prepared"
  | .noStaticField field owner => s!"no static field {field} in {owner}"
  | .isStatic method => s!"{method} is static"
  | .isNotStatic method => s!"{method} is not static"
  | .bootstrapLacksField owner field => s!"bootstrap class {owner} lacks field {field}"
  | .nothingStopped => "no execution is stopped"
  | .noBytecode method => s!"{method} has no bytecode"
  | .pcOutsideMethod pc method => s!"pc {pc} is outside {method}"
  | .noCodeOnLine method line => s!"{method} has no code on line {line}"
  | .other text => text

end StateFault

/-- Why a host call fails. -/
inductive Error where
  | load (error : LoadError)
  | invalidDescriptor (text : String)
  | unknownOpcode (opcode : UInt8) (method : String) (pc : UInt32)
  | unsupported (what : String)
  | invalidState (fault : StateFault)
  | outOfMemory
  | methodNotFound (owner name descriptor : String)
  /-- A guest exception that no handler took. `trace` lists the frames it left,
  innermost first. -/
  | uncaught (className : String) (message : Option String) (trace : List String)
  | terminated
  /-- The evaluation bound was reached. -/
  | exhausted
  deriving DecidableEq

namespace Error

def message : Error → String
  | .load error => error.message
  | .invalidDescriptor text => "invalid descriptor " ++ text
  | .unknownOpcode opcode method pc =>
    s!"unknown opcode 0x{Text.paddedHex 2 opcode.toNat} in {method} at pc {pc}"
  | .unsupported what => "unsupported: " ++ what
  | .invalidState fault => "invalid state: " ++ fault.message
  | .outOfMemory => "out of memory"
  | .methodNotFound owner name descriptor => s!"no method {owner}.{name}{descriptor}"
  | .uncaught className message trace =>
    let head := "Exception " ++ className ++ message.elim "" (": " ++ ·)
    head ++ String.join (trace.map ("\n\tat " ++ ·))
  | .terminated => "execution terminated"
  | .exhausted => "evaluation bound reached"

/-- Name of the kind of an error. -/
def kind : Error → String
  | .load error => error.kind
  | .invalidDescriptor _ => "InvalidDescriptor"
  | .unknownOpcode .. => "UnknownOpcode"
  | .unsupported _ => "Unsupported"
  | .invalidState _ => "InvalidState"
  | .outOfMemory => "OutOfMemory"
  | .methodNotFound .. => "MethodNotFound"
  | .uncaught .. => "UncaughtException"
  | .terminated => "Terminated"
  | .exhausted => "Exhausted"

/-- The error that an error wraps. -/
def source : Error → Option LoadError
  | .load error => some error
  | _ => none

end Error

end Jvm
