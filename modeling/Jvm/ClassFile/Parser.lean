import Jvm.ClassFile.Basic
import Jvm.ClassFile.Cursor
import Jvm.Descriptor
import Jvm.Text.Utf16

/-!
# Parsing class files

A class file is read front to back. Names are looked up in the pool as they are
met, so the first fault in reading order is the one reported. Attributes that
matter are read by their own structure; all others are skipped by the length
they declare.
-/

namespace Jvm.ClassFile

open Cursor

/-- Refuses the file. -/
def reject {α : Type} (fault : FormatFault) : Reader α := throw (.invalidFormat fault)

/-- Two pool indices, in order. -/
def indexPair (make : UInt16 → UInt16 → Constant) : Reader Constant := do
  let first ← short
  let second ← short
  pure (make first second)

/-- The constant after its tag. `index` is where it will stand. -/
def constant (tag : ConstantTag) (index : UInt16) : Reader Constant :=
  match tag with
  | .invalid => pure .empty
  | .utf8 => do
    let length ← short
    let bytes ← bytes? length.toNat
    match Text.decodeConstant? bytes.toList with
    | some text => pure (.utf8 text)
    | none => reject (.badText index)
  | .integer => do pure (.integer (← word).toInt32)
  | .float => do pure (.float (← word))
  | .long => do pure (.long (← longWord).toInt64)
  | .double => do pure (.double (← longWord))
  | .cls => do pure (.cls (← short))
  | .string => do pure (.string (← short))
  | .fieldRef => indexPair .fieldRef
  | .methodRef => indexPair .methodRef
  | .interfaceMethodRef => indexPair .interfaceMethodRef
  | .nameAndType => indexPair .nameAndType
  | .methodHandle => do
    let kind ← byte
    let index ← short
    pure (.methodHandle kind index)
  | .methodType => do pure (.methodType (← short))
  | .dynamic => indexPair .dynamic
  | .invokeDynamic => indexPair .invokeDynamic
  | .moduleRef => do pure (.moduleRef (← short))
  | .packageRef => do pure (.packageRef (← short))

/-- Fills the pool from `index` on. Every constant takes at least one byte, so
the number of bytes bounds the number of constants. The index is a sixteen-bit
count, and an eight-byte literal moves it by two. -/
def constants (count : UInt16) : Nat → UInt16 → ConstantPool → Reader ConstantPool
  | 0, _, pool => pure pool
  | bound + 1, index, pool =>
    if index < count then do
      let code ← byte
      match ConstantTag.ofCode code with
      | none => reject (.badConstantTag code index)
      | some tag => do
        let next ← constant tag index
        constants count bound (index + UInt16.ofNat next.width) (pool.set index next)
    else
      pure pool

/-- The constant pool. -/
def constantPool : Reader ConstantPool := do
  let count ← short
  let cursor ← get
  constants count (cursor.bytes.size + 1) 1 (.ofSize count)

/-- A pool index that names a class. -/
def classRef (pool : ConstantPool) : Reader String := do
  let index ← short
  pool.className index

/-- A pool index that names a text. -/
def textRef (pool : ConstantPool) : Reader String := do
  let index ← short
  pool.utf8 index

/-- Name and declared length of an attribute. -/
def attributeHeader (pool : ConstantPool) : Reader (String × Nat) := do
  let name ← textRef pool
  let length ← word
  pure (name, length.toNat)

/-- Reads the attributes of an item. The body of the attribute called `wanted` is
read by `body`; of several, the last counts. -/
def attributes {α : Type} (pool : ConstantPool) (wanted : String) (start : α)
    (body : α → Reader α) : Reader α := do
  let count ← short
  fold count.toNat start fun found => do
    let (name, length) ← attributeHeader pool
    if name = wanted then body found
    else do
      skip length
      pure found

def field (pool : ConstantPool) : Reader FieldInfo := do
  let flags ← short
  let name ← textRef pool
  let descriptor ← textRef pool
  let _ ← Descriptor.fieldType descriptor
  let constantValue ← attributes pool "ConstantValue" none fun _ => do pure (some (← short))
  pure ⟨flags, name, descriptor, constantValue⟩

def handler : Reader Handler := do
  let startPc ← short
  let endPc ← short
  let handlerPc ← short
  let catchType ← short
  pure ⟨startPc, endPc, handlerPc, catchType⟩

def lineEntry : Reader LineEntry := do
  let startPc ← short
  let line ← short
  pure ⟨startPc, line⟩

/-- The body of a code attribute. Line tables add up. -/
def code (pool : ConstantPool) : Reader Code := do
  let maxStack ← short
  let maxLocals ← short
  let length ← word
  if length = 0 ∨ 0xFFFF < length then
    reject (.badCodeLength length.toNat)
  else
    let bytecode ← bytes? length.toNat
    let handlerCount ← short
    let handlers ← many handlerCount.toNat handler
    let lines ← attributes pool "LineNumberTable" #[] fun lines => do
      let count ← short
      let more ← many count.toNat lineEntry
      pure (lines ++ more)
    pure ⟨maxStack, maxLocals, bytecode, handlers.toList, lines.toList⟩

def method (pool : ConstantPool) : Reader MethodInfo := do
  let flags ← short
  let name ← textRef pool
  let descriptor ← textRef pool
  let _ ← MethodType.parse descriptor
  let code ← attributes pool "Code" none fun _ => do pure (some (← code pool))
  pure ⟨flags, name, descriptor, code⟩

/-- A counted sequence. -/
def counted {α : Type} (read : Reader α) : Reader (Array α) := do
  let count ← short
  many count.toNat read

/-- Reads a whole class file. -/
def reader : Reader ClassFile := do
  let magic ← word
  if magic ≠ 0xCAFEBABE then reject .badMagic
  else
    let _minorVersion ← short
    let majorVersion ← short
    if majorVersion < 45 ∨ 65 < majorVersion then reject (.unsupportedVersion majorVersion)
    else
      let pool ← constantPool
      let flags ← short
      let name ← classRef pool
      let superIndex ← short
      let superclass ←
        if superIndex = 0 then pure none
        else do pure (some (← (pool.className superIndex : Except LoadError String)))
      let interfaces ← counted (classRef pool)
      let fields ← counted (field pool)
      let methods ← counted (method pool)
      let sourceFile ← attributes pool "SourceFile" none fun _ => do
        pure (some (← textRef pool))
      let cursor ← get
      if cursor.available.isEmpty then
        pure
          { majorVersion, pool, flags, name, superclass, interfaces := interfaces.toList,
            fields, methods, sourceFile }
      else
        reject .trailingBytes

/-- Decodes the bytes of a class file. -/
def parse (bytes : Array UInt8) : Except LoadError ClassFile :=
  match reader { bytes } with
  | .ok (file, _) => .ok file
  | .error error => .error error

end Jvm.ClassFile
