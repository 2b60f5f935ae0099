import Jvm.Assembler.Pool
import Jvm.Descriptor
import Jvm.Opcode

/-!
# Assembling code

A method body is a list of assembler lines. Lines that have several encodings
pick the shortest; branches name labels, whose places are filled in at the end.
The end also refuses labels without a place, branches that are too long and
bodies that are empty or too large. Messages number labels as they are first
mentioned.
-/

namespace Jvm.Assembler

/-- A name for a place in the code. -/
abbrev Label := String

/-- The kinds of value that have their own local variable instructions. -/
inductive LocalKind where
  | int | long | float | double | reference
  deriving DecidableEq, Repr

namespace LocalKind

/-- Slots of a local of this kind. -/
def width : LocalKind → UInt16
  | .long | .double => 2
  | _ => 1

def load : LocalKind → Opcode
  | .int => .iLoad
  | .long => .lLoad
  | .float => .fLoad
  | .double => .dLoad
  | .reference => .aLoad

/-- The load of local zero; those of the next three follow it. -/
def shortLoad : LocalKind → Opcode
  | .int => .iLoad0
  | .long => .lLoad0
  | .float => .fLoad0
  | .double => .dLoad0
  | .reference => .aLoad0

def store : LocalKind → Opcode
  | .int => .iStore
  | .long => .lStore
  | .float => .fStore
  | .double => .dStore
  | .reference => .aStore

/-- The store of local zero; those of the next three follow it. -/
def shortStore : LocalKind → Opcode
  | .int => .iStore0
  | .long => .lStore0
  | .float => .fStore0
  | .double => .dStore0
  | .reference => .aStore0

end LocalKind

/-- One line of an assembler body. -/
inductive Line where
  /-- An operation without operands. -/
  | op (opcode : Opcode)
  | rawByte (value : UInt8)
  | rawShort (value : UInt16)
  /-- The source line of what follows. -/
  | sourceLine (line : UInt16)
  | maxStack (slots : UInt16)
  | int (value : Int32)
  | long (value : Int64)
  | float (bits : UInt32)
  | double (bits : UInt64)
  | string (text : String)
  | classConstant (name : String)
  | load (kind : LocalKind) (index : UInt16)
  | store (kind : LocalKind) (index : UInt16)
  | increment (index : UInt16) (delta : Int16)
  | newObject (name : String)
  | newArray (element : PrimitiveArray)
  | newRefArray (component : String)
  | newMultiArray (name : String) (dimensions : UInt8)
  | checkCast (name : String)
  | instanceOf (name : String)
  | getStatic (owner name descriptor : String)
  | putStatic (owner name descriptor : String)
  | getField (owner name descriptor : String)
  | putField (owner name descriptor : String)
  | invokeVirtual (owner name descriptor : String)
  | invokeSpecial (owner name descriptor : String)
  | invokeStatic (owner name descriptor : String)
  | invokeInterface (owner name descriptor : String)
  | bind (label : Label)
  /-- A jump or conditional branch with a two-byte offset. -/
  | branch (opcode : Opcode) (label : Label)
  | farJump (label : Label)
  | tableSwitch (low : Int32) (fallback : Label) (targets : List Label)
  | lookupSwitch (fallback : Label) (pairs : List (Int32 × Label))
  /-- A handler for `[start, finish)`; without a type it catches everything. -/
  | handler (start finish target : Label) (catchType : Option String)

/-- The labels that a line mentions, in order. -/
def Line.labels : Line → List Label
  | .bind label | .branch _ label | .farJump label => [label]
  | .tableSwitch _ fallback targets => fallback :: targets
  | .lookupSwitch fallback pairs => fallback :: pairs.map Prod.snd
  | .handler start finish target _ => [start, finish, target]
  | _ => []

/-- An offset that waits for its label. It is relative to its instruction. -/
structure Fixup where
  instruction : Nat
  position : Nat
  label : Label
  far : Bool

/-- A handler whose range waits for its labels. -/
structure PendingHandler where
  start : Label
  finish : Label
  target : Label
  catchType : UInt16

/-- Code under assembly. -/
structure CodeBuilder where
  code : Array UInt8 := #[]
  /-- The labels that the body mentions, in order. -/
  labels : List Label := []
  /-- Places of the labels, the latest binding first. -/
  bindings : List (Label × Nat) := []
  fixups : Array Fixup := #[]
  handlers : Array PendingHandler := #[]
  lines : Array (UInt16 × UInt16) := #[]
  maxStack : UInt16 := 16
  maxLocals : UInt16 := 0

namespace CodeBuilder

/-- The start of a body. The arguments of its method take so many slots. -/
def ofBody (slots : UInt16) (body : List Line) : CodeBuilder :=
  { labels := body.flatMap Line.labels, maxLocals := slots }

def byte (builder : CodeBuilder) (value : UInt8) : CodeBuilder :=
  { builder with code := builder.code.push value }

def bytes (builder : CodeBuilder) (values : List UInt8) : CodeBuilder :=
  { builder with code := builder.code ++ values }

def op (builder : CodeBuilder) (opcode : Opcode) : CodeBuilder := builder.byte opcode.byte

def short (builder : CodeBuilder) (value : UInt16) : CodeBuilder :=
  builder.bytes (Bytes.ofShort value)

def word (builder : CodeBuilder) (value : UInt32) : CodeBuilder :=
  builder.bytes (Bytes.ofWord value)

/-- An operation with a two-byte operand. -/
def withIndex (builder : CodeBuilder) (opcode : Opcode) (index : UInt16) : CodeBuilder :=
  (builder.op opcode).short index

/-- Loads the constant of a number by the shorter of two instructions. -/
def loadConstant (builder : CodeBuilder) (index : UInt16) : CodeBuilder :=
  if index ≤ 0xFF then (builder.op .ldc).byte index.toUInt8 else builder.withIndex .ldcW index

/-- Counts a local towards the number of locals. -/
def touch (builder : CodeBuilder) (index width : UInt16) : CodeBuilder :=
  { builder with maxLocals := max builder.maxLocals (index + width) }

/-- An access to a local: a one-byte instruction up to index three, a one-byte
index up to 255, the wide form above. -/
def access (builder : CodeBuilder) (base shortBase : Opcode) (index width : UInt16) :
    CodeBuilder :=
  let builder := builder.touch index width
  if index ≤ 3 then builder.byte (shortBase.byte + index.toUInt8)
  else if index ≤ 0xFF then (builder.op base).byte index.toUInt8
  else ((builder.op .wide).op base).short index

def increment (builder : CodeBuilder) (index : UInt16) (delta : Int16) : CodeBuilder :=
  let builder := builder.touch index 1
  if index ≤ 0xFF ∧ -128 ≤ delta ∧ delta ≤ 127 then
    ((builder.op .iInc).byte index.toUInt8).byte delta.toInt8.toUInt8
  else
    (((builder.op .wide).op .iInc).short index).short delta.toUInt16

/-- Leaves room for an offset of the instruction at `instruction`. -/
def reserve (builder : CodeBuilder) (instruction : Nat) (label : Label) (far : Bool) :
    CodeBuilder :=
  let fixup := ⟨instruction, builder.code.size, label, far⟩
  let builder := { builder with fixups := builder.fixups.push fixup }
  if far then builder.word 0 else builder.short 0

/-- Zero bytes up to a multiple of four. -/
def align (builder : CodeBuilder) : CodeBuilder :=
  builder.bytes (List.replicate ((4 - builder.code.size % 4) % 4) 0)

def tableSwitch (builder : CodeBuilder) (low : Int32) (fallback : Label)
    (targets : List Label) : CodeBuilder :=
  let start := builder.code.size
  let builder := (builder.op .tableSwitch).align.reserve start fallback true
  let high := low + Int32.ofNat targets.length - 1
  let builder := (builder.word low.toUInt32).word high.toUInt32
  targets.foldl (fun builder target => builder.reserve start target true) builder

/-- Pairs are written by ascending key; pairs of one key keep their order. -/
def lookupSwitch (builder : CodeBuilder) (fallback : Label) (pairs : List (Int32 × Label)) :
    CodeBuilder :=
  let start := builder.code.size
  let builder := (builder.op .lookupSwitch).align.reserve start fallback true
  let builder := builder.word (UInt32.ofNat pairs.length)
  (pairs.mergeSort fun left right => left.1 ≤ right.1).foldl
    (fun builder (key, target) => (builder.word key.toUInt32).reserve start target true) builder

end CodeBuilder

/-- The smallest encoding of an `int` constant. -/
def intConstant (builder : CodeBuilder) (value : Int32) : Numbering CodeBuilder :=
  if -1 ≤ value ∧ value ≤ 5 then
    pure (builder.byte (Opcode.iConst0.byte + value.toInt8.toUInt8))
  else if -128 ≤ value ∧ value ≤ 127 then
    pure ((builder.op .biPush).byte value.toInt8.toUInt8)
  else if -32768 ≤ value ∧ value ≤ 32767 then
    pure (builder.withIndex .siPush value.toInt16.toUInt16)
  else do
    let index ← Numbering.item (.integer value)
    pure (builder.loadConstant index)

def longConstant (builder : CodeBuilder) (value : Int64) : Numbering CodeBuilder :=
  if value = 0 then pure (builder.op .lConst0)
  else if value = 1 then pure (builder.op .lConst1)
  else do
    let index ← Numbering.item (.long value)
    pure (builder.withIndex .ldc2W index)

/-- Zero, one and two have instructions of their own; negative zero has not. -/
def floatConstant (builder : CodeBuilder) (bits : UInt32) : Numbering CodeBuilder :=
  if bits = 0 then pure (builder.op .fConst0)
  else if bits = 0x3F800000 then pure (builder.op .fConst1)
  else if bits = 0x40000000 then pure (builder.op .fConst2)
  else do
    let index ← Numbering.item (.float bits)
    pure (builder.loadConstant index)

/-- Zero and one have instructions of their own; negative zero has not. -/
def doubleConstant (builder : CodeBuilder) (bits : UInt64) : Numbering CodeBuilder :=
  if bits = 0 then pure (builder.op .dConst0)
  else if bits = 0x3FF0000000000000 then pure (builder.op .dConst1)
  else do
    let index ← Numbering.item (.double bits)
    pure (builder.withIndex .ldc2W index)

/-- An instruction whose operand is a class. -/
def classOperand (builder : CodeBuilder) (opcode : Opcode) (name : String) :
    Numbering CodeBuilder := do
  let index ← Numbering.cls name
  pure (builder.withIndex opcode index)

/-- An instruction whose operand is a field or method. -/
def memberOperand (builder : CodeBuilder) (opcode : Opcode)
    (make : UInt16 → UInt16 → Constant) (owner name descriptor : String) :
    Numbering CodeBuilder := do
  let index ← Numbering.member make owner name descriptor
  pure (builder.withIndex opcode index)

/-- The argument count that an interface call repeats: the receiver's slot and
those of the descriptor, if it is one. -/
def interfaceCount (descriptor : String) : UInt16 :=
  match MethodType.parse descriptor with
  | .ok type => type.argSlots + 1
  | .error _ => 1

/-- Appends one line. -/
def line (builder : CodeBuilder) : Line → Numbering CodeBuilder
  | .op opcode => pure (builder.op opcode)
  | .rawByte value => pure (builder.byte value)
  | .rawShort value => pure (builder.short value)
  | .sourceLine line =>
    pure { builder with lines := builder.lines.push (UInt16.ofNat builder.code.size, line) }
  | .maxStack slots => pure { builder with maxStack := slots }
  | .int value => intConstant builder value
  | .long value => longConstant builder value
  | .float bits => floatConstant builder bits
  | .double bits => doubleConstant builder bits
  | .string text => do
    let index ← Numbering.string text
    pure (builder.loadConstant index)
  | .classConstant name => do
    let index ← Numbering.cls name
    pure (builder.loadConstant index)
  | .load kind index => pure (builder.access kind.load kind.shortLoad index kind.width)
  | .store kind index => pure (builder.access kind.store kind.shortStore index kind.width)
  | .increment index delta => pure (builder.increment index delta)
  | .newObject name => classOperand builder .newObject name
  | .newArray element => pure ((builder.op .newArray).byte element.code)
  | .newRefArray component => classOperand builder .aNewArray component
  | .newMultiArray name dimensions => do
    let builder ← classOperand builder .multiANewArray name
    pure (builder.byte dimensions)
  | .checkCast name => classOperand builder .checkCast name
  | .instanceOf name => classOperand builder .instanceOf name
  | .getStatic owner name descriptor =>
    memberOperand builder .getStatic .fieldRef owner name descriptor
  | .putStatic owner name descriptor =>
    memberOperand builder .putStatic .fieldRef owner name descriptor
  | .getField owner name descriptor =>
    memberOperand builder .getField .fieldRef owner name descriptor
  | .putField owner name descriptor =>
    memberOperand builder .putField .fieldRef owner name descriptor
  | .invokeVirtual owner name descriptor =>
    memberOperand builder .invokeVirtual .methodRef owner name descriptor
  | .invokeSpecial owner name descriptor =>
    memberOperand builder .invokeSpecial .methodRef owner name descriptor
  | .invokeStatic owner name descriptor =>
    memberOperand builder .invokeStatic .methodRef owner name descriptor
  | .invokeInterface owner name descriptor => do
    let builder ←
      memberOperand builder .invokeInterface .interfaceMethodRef owner name descriptor
    pure ((builder.byte (interfaceCount descriptor).toUInt8).byte 0)
  | .bind label =>
    pure { builder with bindings := (label, builder.code.size) :: builder.bindings }
  | .branch opcode label =>
    let start := builder.code.size
    pure ((builder.op opcode).reserve start label false)
  | .farJump label =>
    let start := builder.code.size
    pure ((builder.op .gotoFar).reserve start label true)
  | .tableSwitch low fallback targets => pure (builder.tableSwitch low fallback targets)
  | .lookupSwitch fallback pairs => pure (builder.lookupSwitch fallback pairs)
  | .handler start finish target catchType => do
    let catchType ←
      match catchType with
      | some name => Numbering.cls name
      | none => pure 0
    pure { builder with handlers := builder.handlers.push ⟨start, finish, target, catchType⟩ }

namespace CodeBuilder

/-- The number of a label: how many others are mentioned before it. -/
def labelNumber (builder : CodeBuilder) (label : Label) : Nat :=
  (builder.labels.takeWhile (· ≠ label)).eraseDups.length

/-- The place of a label. -/
def place (builder : CodeBuilder) (label : Label) : Except LoadError Nat :=
  match builder.bindings.lookup label with
  | some position => .ok position
  | none => .error (.verifyFailed (.unboundLabel (builder.labelNumber label)))

/-- Overwrites bytes from a position on. -/
def overwrite (code : Array UInt8) (position : Nat) : List UInt8 → Array UInt8
  | [] => code
  | value :: rest => overwrite (code.setIfInBounds position value) (position + 1) rest

/-- Fills in one offset. -/
def patch (builder : CodeBuilder) (code : Array UInt8) (fixup : Fixup) :
    Except LoadError (Array UInt8) := do
  let position ← builder.place fixup.label
  let offset : Int := (position : Int) - fixup.instruction
  if fixup.far then
    pure (overwrite code fixup.position (Bytes.ofWord (Int32.ofInt offset).toUInt32))
  else if -32768 ≤ offset ∧ offset ≤ 32767 then
    pure (overwrite code fixup.position (Bytes.ofShort (Int16.ofInt offset).toUInt16))
  else
    throw (.verifyFailed (.branchTooFar offset))

/-- The code with every offset filled in, in the order they were left open. -/
def patched (builder : CodeBuilder) : Except LoadError (Array UInt8) :=
  builder.fixups.foldlM builder.patch builder.code

/-- A handler as the code attribute holds it. -/
def handlerBytes (builder : CodeBuilder) (handler : PendingHandler) :
    Except LoadError (List UInt8) := do
  let start ← builder.place handler.start
  let finish ← builder.place handler.finish
  let target ← builder.place handler.target
  pure (Bytes.ofShort (UInt16.ofNat start) ++ Bytes.ofShort (UInt16.ofNat finish) ++
    Bytes.ofShort (UInt16.ofNat target) ++ Bytes.ofShort handler.catchType)

/-- The line table attribute, or the absence of attributes. -/
def lineBytes (builder : CodeBuilder) (name : Option UInt16) : List UInt8 :=
  match name with
  | none => Bytes.ofShort 0
  | some name =>
    Bytes.ofShort 1 ++ Bytes.ofShort name ++
      Bytes.ofWord (UInt32.ofNat (2 + 4 * builder.lines.size)) ++
      Bytes.ofShort (UInt16.ofNat builder.lines.size) ++
      builder.lines.toList.flatMap fun (pc, line) => Bytes.ofShort pc ++ Bytes.ofShort line

/-- Ends a body: patches it, checks its length and wraps it into an attribute.
The attribute's names are numbered only after the first two steps. -/
def finish (builder : CodeBuilder) : ExceptT LoadError Numbering (Array UInt8) := do
  let code ← (builder.patched : Except LoadError (Array UInt8))
  if code.isEmpty ∨ 0xFFFF < code.size then
    throw (.verifyFailed (.badCodeLength code.size))
  else
    let name ← Numbering.utf8 "Code"
    let linesName ←
      if builder.lines.isEmpty then pure none
      else some <$> (Numbering.utf8 "LineNumberTable" : Numbering UInt16)
    let handlers ← (builder.handlers.toList.mapM builder.handlerBytes : Except LoadError _)
    let body :=
      ((Bytes.ofShort builder.maxStack ++ Bytes.ofShort builder.maxLocals ++
        Bytes.ofWord (UInt32.ofNat code.size)).toArray ++ code ++
        Bytes.ofShort (UInt16.ofNat builder.handlers.size)) ++ handlers.flatten ++
        builder.lineBytes linesName
    pure ((Bytes.ofShort name ++ Bytes.ofWord (UInt32.ofNat body.size)).toArray ++ body)

end CodeBuilder

/-- Assembles the body of a method whose arguments take so many slots into a
code attribute. -/
def codeAttribute (slots : UInt16) (body : List Line) :
    ExceptT LoadError Numbering (Array UInt8) := do
  let builder ← (body.foldlM line (.ofBody slots body) : Numbering CodeBuilder)
  builder.finish

end Jvm.Assembler
