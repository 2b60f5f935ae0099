import Jvm.Value
import Jvm.Text.Quoted
import Jvm.Decimal.Notation

/-!
# Constants

One entry of a constant pool is a literal, a symbolic reference made of indices
of other entries, or the resolved form that replaces a symbolic reference the
first time it is used. Error messages describe entries; the description is
defined here too.
-/

namespace Jvm

/-- What kind of constant an entry is, as the class file tags it. -/
inductive ConstantTag where
  | invalid | utf8 | integer | float | long | double | cls | string | fieldRef | methodRef
  | interfaceMethodRef | nameAndType | methodHandle | methodType | dynamic | invokeDynamic
  | moduleRef | packageRef
  deriving DecidableEq, Repr

namespace ConstantTag

def ofCode : UInt8 → Option ConstantTag
  | 1 => some .utf8
  | 3 => some .integer
  | 4 => some .float
  | 5 => some .long
  | 6 => some .double
  | 7 => some .cls
  | 8 => some .string
  | 9 => some .fieldRef
  | 10 => some .methodRef
  | 11 => some .interfaceMethodRef
  | 12 => some .nameAndType
  | 15 => some .methodHandle
  | 16 => some .methodType
  | 17 => some .dynamic
  | 18 => some .invokeDynamic
  | 19 => some .moduleRef
  | 20 => some .packageRef
  | _ => none

def name : ConstantTag → String
  | .invalid => "Invalid"
  | .utf8 => "Utf8"
  | .integer => "Integer"
  | .float => "Float"
  | .long => "Long"
  | .double => "Double"
  | .cls => "Class"
  | .string => "String"
  | .fieldRef => "Fieldref"
  | .methodRef => "Methodref"
  | .interfaceMethodRef => "InterfaceMethodref"
  | .nameAndType => "NameAndType"
  | .methodHandle => "MethodHandle"
  | .methodType => "MethodType"
  | .dynamic => "Dynamic"
  | .invokeDynamic => "InvokeDynamic"
  | .moduleRef => "Module"
  | .packageRef => "Package"

end ConstantTag

/-- A field reference after resolution. -/
structure ResolvedField where
  owner : ClassId
  slot : UInt16
  kind : Kind
  isStatic : Bool
  deriving DecidableEq, Hashable

/-- A method reference after resolution. `argSlots` counts the receiver. -/
structure ResolvedMethod where
  method : MethodId
  argSlots : UInt16
  isStatic : Bool
  deriving DecidableEq, Hashable

/-- One slot of a constant pool. -/
inductive Constant where
  | empty
  | utf8 (text : String)
  | integer (value : Int32)
  | float (bits : UInt32)
  | long (value : Int64)
  | double (bits : UInt64)
  | cls (nameIndex : UInt16)
  | string (utf8Index : UInt16)
  | fieldRef (classIndex natIndex : UInt16)
  | methodRef (classIndex natIndex : UInt16)
  | interfaceMethodRef (classIndex natIndex : UInt16)
  | nameAndType (nameIndex descriptorIndex : UInt16)
  | methodHandle (kind : UInt8) (index : UInt16)
  | methodType (descriptorIndex : UInt16)
  | dynamic (bootstrapIndex natIndex : UInt16)
  | invokeDynamic (bootstrapIndex natIndex : UInt16)
  | moduleRef (nameIndex : UInt16)
  | packageRef (nameIndex : UInt16)
  | resolvedClass (id : ClassId)
  | resolvedString (ref : Ref)
  | resolvedField (field : ResolvedField)
  | resolvedMethod (method : ResolvedMethod)
  deriving DecidableEq, Hashable

namespace Constant

instance : Inhabited Constant := ⟨.empty⟩

/-- A resolved reference keeps the tag of what it replaced; a resolved interface
method counts as a method. -/
def tag : Constant → ConstantTag
  | .empty => .invalid
  | .utf8 _ => .utf8
  | .integer _ => .integer
  | .float _ => .float
  | .long _ => .long
  | .double _ => .double
  | .cls _ | .resolvedClass _ => .cls
  | .string _ | .resolvedString _ => .string
  | .fieldRef .. | .resolvedField _ => .fieldRef
  | .methodRef .. | .resolvedMethod _ => .methodRef
  | .interfaceMethodRef .. => .interfaceMethodRef
  | .nameAndType .. => .nameAndType
  | .methodHandle .. => .methodHandle
  | .methodType _ => .methodType
  | .dynamic .. => .dynamic
  | .invokeDynamic .. => .invokeDynamic
  | .moduleRef _ => .moduleRef
  | .packageRef _ => .packageRef

/-- Slots of the pool that a constant takes: eight-byte literals take two. -/
def width : Constant → Nat
  | .long _ | .double _ => 2
  | _ => 1

/-- A named record with its fields, as descriptions show it. -/
def recordText (name : String) (fields : List (String × String)) : String :=
  name ++ " \x7b " ++ ", ".intercalate (fields.map fun (field, text) => field ++ ": " ++ text) ++
    " \x7d"

/-- A constructor applied to one argument, as descriptions show it. -/
def wrapText (name argument : String) : String := name ++ "(" ++ argument ++ ")"

private def classIdText (id : ClassId) : String := wrapText "ClassId" (toString id.index)

/-- Description of an entry in error messages. -/
def describe : Constant → String
  | .empty => "Empty"
  | .utf8 text => wrapText "Utf8" (Text.quote text)
  | .integer value => wrapText "Integer" (toString value.toInt)
  | .float bits => wrapText "Float" (Decimal.Style.descriptive.text .single bits.toNat)
  | .long value => wrapText "Long" (toString value.toInt)
  | .double bits => wrapText "Double" (Decimal.Style.descriptive.text .double bits.toNat)
  | .cls name => recordText "Class" [("name_index", toString name)]
  | .string text => recordText "String" [("utf8_index", toString text)]
  | .fieldRef owner nat => member "FieldRef" owner nat
  | .methodRef owner nat => member "MethodRef" owner nat
  | .interfaceMethodRef owner nat => member "InterfaceMethodRef" owner nat
  | .nameAndType name descriptor =>
    recordText "NameAndType"
      [("name_index", toString name), ("descriptor_index", toString descriptor)]
  | .methodHandle kind index =>
    recordText "MethodHandle" [("kind", toString kind), ("index", toString index)]
  | .methodType descriptor => recordText "MethodType" [("descriptor_index", toString descriptor)]
  | .dynamic bootstrap nat => dynamicText "Dynamic" bootstrap nat
  | .invokeDynamic bootstrap nat => dynamicText "InvokeDynamic" bootstrap nat
  | .moduleRef name => recordText "Module" [("name_index", toString name)]
  | .packageRef name => recordText "Package" [("name_index", toString name)]
  | .resolvedClass id => wrapText "ResolvedClass" (classIdText id)
  | .resolvedString ref => wrapText "ResolvedString" (toString ref)
  | .resolvedField field =>
    wrapText "ResolvedField" <| recordText "ResolvedField"
      [("class", classIdText field.owner), ("slot", toString field.slot),
        ("kind", field.kind.name), ("is_static", toString field.isStatic)]
  | .resolvedMethod method =>
    wrapText "ResolvedMethod" <| recordText "ResolvedMethod"
      [("method", recordText "MethodId"
          [("class", classIdText method.method.owner), ("index", toString method.method.index)]),
        ("arg_slots", toString method.argSlots), ("is_static", toString method.isStatic)]
where
  member (name : String) (owner nat : UInt16) : String :=
    recordText name [("class_index", toString owner), ("nat_index", toString nat)]
  dynamicText (name : String) (bootstrap nat : UInt16) : String :=
    recordText name [("bootstrap_index", toString bootstrap), ("nat_index", toString nat)]

end Constant

end Jvm
