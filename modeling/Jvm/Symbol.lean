import Std.Data.HashMap

/-!
# Symbols

A symbol is an interned text with a hash that combines its length and a cyclic
redundancy check of its bytes. A table holds one symbol for each text.
-/

namespace Jvm

/-- An interned text and its hash. -/
structure Symbol where
  text : String
  hash : UInt32
  deriving DecidableEq, Repr

namespace Symbol

/-- One bit of the check: shift, and subtract the polynomial on a carry. -/
def crcShift (crc : UInt16) : UInt16 :=
  if crc &&& 0x8000 ≠ 0 then (crc <<< 1) ^^^ 0x1021 else crc <<< 1

/-- The check after one more byte. -/
def crcByte (crc : UInt16) (byte : UInt8) : UInt16 :=
  Nat.repeat crcShift 8 (crc ^^^ (byte.toUInt16 <<< 8))

/-- Sixteen-bit cyclic redundancy check of a byte sequence. -/
def crc (bytes : List UInt8) : UInt16 := bytes.foldl crcByte 0xFFFF

/-- Byte count in the low half, check in the high half. -/
def hashText (text : String) : UInt32 :=
  let length : UInt32 := UInt32.ofNat text.utf8ByteSize &&& (0xFFFF : UInt32)
  let check : UInt32 := (crc text.toByteArray.data.toList).toUInt32 <<< (16 : UInt32)
  length ||| check

/-- The symbol of a text. -/
def ofText (text : String) : Symbol := ⟨text, hashText text⟩

end Symbol

/-- The symbols known so far. -/
structure SymbolTable where
  symbols : Std.HashMap String Symbol := {}

namespace SymbolTable

def empty : SymbolTable := {}

def find? (table : SymbolTable) (text : String) : Option Symbol := table.symbols[text]?

/-- The symbol of a text, added if the table lacks it. -/
def intern (table : SymbolTable) (text : String) : Symbol × SymbolTable :=
  match table.find? text with
  | some symbol => (symbol, table)
  | none =>
    let symbol := Symbol.ofText text
    (symbol, { table with symbols := table.symbols.insert text symbol })

def size (table : SymbolTable) : Nat := table.symbols.size

theorem find?_intern (table : SymbolTable) (text : String) :
    (table.intern text).2.find? text = some (table.intern text).1 := by
  unfold intern
  split
  · assumption
  · simp [find?]

end SymbolTable

end Jvm
