/-!
# UTF-16 units

Guest strings are sequences of 16-bit units, in which a character outside the
basic plane is a pair of surrogates and a surrogate may also stand alone. Host
text has neither: decoding puts the replacement character where a surrogate has
no partner.
-/

namespace Jvm.Text

/-- What an unpaired surrogate decodes to. -/
def replacement : Char := '\uFFFD'

/-- The one or two units of a character. -/
def unitsOfChar (character : Char) : List UInt16 :=
  let point := character.toNat
  if point < 0x10000 then
    [UInt16.ofNat point]
  else
    [UInt16.ofNat (0xD800 + (point - 0x10000) / 0x400),
      UInt16.ofNat (0xDC00 + (point - 0x10000) % 0x400)]

/-- The units of a text. -/
def units (text : String) : List UInt16 := text.toList.flatMap unitsOfChar

def isHighSurrogate (unit : UInt16) : Bool := 0xD800 ≤ unit && unit < 0xDC00

def isLowSurrogate (unit : UInt16) : Bool := 0xDC00 ≤ unit && unit < 0xE000

/-- The character of a surrogate pair. -/
def pairChar (high low : UInt16) : Char :=
  Char.ofNat (0x10000 + (high.toNat - 0xD800) * 0x400 + (low.toNat - 0xDC00))

/-- Characters of a unit sequence, unpaired surrogates replaced. -/
def charsOfUnits : List UInt16 → List Char
  | [] => []
  | [unit] =>
    [if isHighSurrogate unit || isLowSurrogate unit then replacement else Char.ofNat unit.toNat]
  | high :: low :: rest =>
    if isHighSurrogate high then
      if isLowSurrogate low then
        pairChar high low :: charsOfUnits rest
      else
        replacement :: charsOfUnits (low :: rest)
    else if isLowSurrogate high then
      replacement :: charsOfUnits (low :: rest)
    else
      Char.ofNat high.toNat :: charsOfUnits (low :: rest)

/-- The text of a unit sequence, unpaired surrogates replaced. -/
def ofUnits (units : List UInt16) : String := String.ofList (charsOfUnits units)

/-!
## Compact strings

A guest string stores its units in a byte array: one byte a unit when every
unit fits a byte, two bytes a unit, low byte first, otherwise. The *coder* says
which. Texts and unit sequences are encoded by separate functions that agree.
-/

/-- Coder of a string with one byte a unit. -/
def latin1 : Int8 := 0

/-- Coder of a string with two bytes a unit. -/
def utf16 : Int8 := 1

/-- The two bytes of a unit, low byte first. -/
def unitBytes (unit : UInt16) : List Int8 :=
  [unit.toUInt8.toInt8, (unit >>> 8).toUInt8.toInt8]

/-- Bytes and coder of a unit sequence. -/
def compactUnits (units : List UInt16) : List Int8 × Int8 :=
  if units.all (· ≤ 0xFF) then
    (units.map fun unit => unit.toUInt8.toInt8, latin1)
  else
    (units.flatMap unitBytes, utf16)

/-- Bytes and coder of a text, chosen by its characters. -/
def compact (text : String) : List Int8 × Int8 :=
  if text.toList.all (·.toNat ≤ 0xFF) then
    (text.toList.map fun character => character.val.toUInt8.toInt8, latin1)
  else
    ((units text).flatMap unitBytes, utf16)

/-- Units of a byte sequence with two bytes a unit; an odd last byte is dropped. -/
def unitsOfPairs : List Int8 → List UInt16
  | low :: high :: rest =>
    (low.toUInt8.toUInt16 ||| (high.toUInt8.toUInt16 <<< 8)) :: unitsOfPairs rest
  | _ => []

/-- Units of a stored string. -/
def expand (bytes : List Int8) (coder : Int8) : List UInt16 :=
  if coder = latin1 then
    bytes.map fun byte => byte.toUInt8.toUInt16
  else
    unitsOfPairs bytes

/-- Text of a stored string. -/
def expandText (bytes : List Int8) (coder : Int8) : String := ofUnits (expand bytes coder)

/-- The polynomial hash of a unit sequence: each unit is added to thirty-one
times the hash of those before it. -/
def hashUnits (units : List UInt16) : Int32 :=
  units.foldl (fun hash unit => hash * 31 + unit.toUInt32.toInt32) 0

/-!
## Text constants of class files

Class files write text in a variant of UTF-8: NUL takes two bytes and a
character outside the basic plane is written as two separately encoded
surrogates. Bytes that happen to be standard UTF-8 are read as such; all others
are read by the variant's lenient rules, which look at the leading bits of the
first byte of each group only.
-/

/-- The low six bits of a continuation byte. -/
def continuation (byte : UInt8) : UInt16 := (byte &&& 0x3F).toUInt16

/-- Units of a byte sequence by the variant's rules. `none` when a group is cut
short or starts with a byte that no group starts with. -/
def unitsOfVariant? : List UInt8 → Option (List UInt16)
  | [] => some []
  | lead :: rest =>
    if lead &&& 0x80 = 0 then
      (unitsOfVariant? rest).map (lead.toUInt16 :: ·)
    else if lead &&& 0xE0 = 0xC0 then
      match rest with
      | second :: rest =>
        (unitsOfVariant? rest).map
          ((((lead &&& 0x1F).toUInt16 <<< 6) ||| continuation second) :: ·)
      | [] => none
    else if lead &&& 0xF0 = 0xE0 then
      match rest with
      | second :: third :: rest =>
        (unitsOfVariant? rest).map
          ((((lead &&& 0x0F).toUInt16 <<< 12) ||| (continuation second <<< 6) |||
            continuation third) :: ·)
      | _ => none
    else
      none

/-- Text of a class file's text constant. -/
def decodeConstant? (bytes : List UInt8) : Option String :=
  match String.fromUTF8? ⟨bytes.toArray⟩ with
  | some text => some text
  | none => (unitsOfVariant? bytes).map ofUnits

/-- Standard UTF-8 bytes of a text. -/
def utf8 (text : String) : List UInt8 := text.toByteArray.data.toList

end Jvm.Text
