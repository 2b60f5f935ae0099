import Jvm.Bytes
import Jvm.Constant
import Jvm.Text.Utf16
import Std.Data.HashMap

/-!
# Numbering constants

While a class is assembled its constants are numbered in the order in which they
are first wanted; asking again for a constant gives its number again. An
eight-byte literal takes two numbers. Numbers are sixteen bits wide.
-/

namespace Jvm.Assembler

/-- Constants in order, the number of each, and the next number. -/
structure PoolBuilder where
  items : Array Constant := #[]
  numbers : Std.HashMap Constant UInt16 := {}
  next : UInt16 := 0

namespace PoolBuilder

/-- The number that a new constant would get. Zero is not a number. -/
def fresh (pool : PoolBuilder) : UInt16 := if pool.next = 0 then 1 else pool.next

/-- The number of a constant, which is added if it is new. -/
def add (pool : PoolBuilder) (item : Constant) : UInt16 × PoolBuilder :=
  match pool.numbers[item]? with
  | some number => (number, pool)
  | none =>
    let number := pool.fresh
    (number,
      { items := pool.items.push item
        numbers := pool.numbers.insert item number
        next := number + UInt16.ofNat item.width })

/-- The byte that tags a constant that a class file can hold. -/
def tagByte : Constant → UInt8
  | .utf8 _ => 1
  | .integer _ => 3
  | .float _ => 4
  | .long _ => 5
  | .double _ => 6
  | .cls _ => 7
  | .string _ => 8
  | .fieldRef .. => 9
  | .methodRef .. => 10
  | .interfaceMethodRef .. => 11
  | .nameAndType .. => 12
  | .methodHandle .. => 15
  | .methodType _ => 16
  | .dynamic .. => 17
  | .invokeDynamic .. => 18
  | .moduleRef _ => 19
  | .packageRef _ => 20
  | _ => 0

/-- The bytes behind the tag. A text is written in standard UTF-8, its length in
sixteen bits. -/
def payload : Constant → List UInt8
  | .utf8 text =>
    let bytes := Text.utf8 text
    Bytes.ofShort (UInt16.ofNat bytes.length) ++ bytes
  | .integer value => Bytes.ofWord value.toUInt32
  | .float bits => Bytes.ofWord bits
  | .long value => Bytes.ofLongWord value.toUInt64
  | .double bits => Bytes.ofLongWord bits
  | .cls index | .string index | .methodType index | .moduleRef index | .packageRef index =>
    Bytes.ofShort index
  | .fieldRef first second | .methodRef first second | .interfaceMethodRef first second
  | .nameAndType first second | .dynamic first second | .invokeDynamic first second =>
    Bytes.ofShort first ++ Bytes.ofShort second
  | .methodHandle kind index => kind :: Bytes.ofShort index
  | _ => []

/-- The constant pool as a class file holds it: the count, then each constant. -/
def encode (pool : PoolBuilder) : Array UInt8 :=
  pool.items.foldl (fun bytes item => bytes.push (tagByte item) ++ payload item)
    (Bytes.ofShort pool.fresh).toArray

end PoolBuilder

/-- A computation that numbers constants. -/
abbrev Numbering := StateM PoolBuilder

namespace Numbering

def item (constant : Constant) : Numbering UInt16 := fun pool => pool.add constant

def utf8 (text : String) : Numbering UInt16 := item (.utf8 text)

/-- A class entry; its name is numbered first. -/
def cls (name : String) : Numbering UInt16 := do
  let name ← utf8 name
  item (.cls name)

/-- A string entry; its text is numbered first. -/
def string (text : String) : Numbering UInt16 := do
  let text ← utf8 text
  item (.string text)

def nameAndType (name descriptor : String) : Numbering UInt16 := do
  let name ← utf8 name
  let descriptor ← utf8 descriptor
  item (.nameAndType name descriptor)

/-- A member entry: its class, then its name and type, then the entry itself. -/
def member (make : UInt16 → UInt16 → Constant) (owner name descriptor : String) :
    Numbering UInt16 := do
  let owner ← cls owner
  let nat ← nameAndType name descriptor
  item (make owner nat)

end Numbering

end Jvm.Assembler
