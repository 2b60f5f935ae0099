import Jvm.Error

/-!
# Constant pools

A pool is a table of constants indexed from one. Index zero, and the second
slot of an eight-byte literal, hold nothing and cannot be read. Look-ups that
expect a certain constant say which index held what instead.
-/

namespace Jvm

/-- The constants of a class. -/
structure ConstantPool where
  entries : Array Constant := #[]
  deriving DecidableEq, Inhabited

namespace ConstantPool

/-- A pool of `count` empty slots. -/
def ofSize (count : UInt16) : ConstantPool := ⟨Array.replicate count.toNat .empty⟩

def size (pool : ConstantPool) : Nat := pool.entries.size

/-- Whether the pool holds no index that could be read. -/
def isEmpty (pool : ConstantPool) : Bool := pool.size ≤ 1

/-- What a slot holds; slots outside the pool hold nothing. -/
def slot (pool : ConstantPool) (index : UInt16) : Constant :=
  pool.entries.getD index.toNat .empty

/-- The constant at an index. -/
def get (pool : ConstantPool) (index : UInt16) : Except LoadError Constant :=
  match pool.slot index with
  | .empty => .error (.invalidFormat (.badPoolIndex index))
  | constant => .ok constant

/-- Replaces the constant at an index of the pool. -/
def set (pool : ConstantPool) (index : UInt16) (constant : Constant) : ConstantPool :=
  ⟨pool.entries.setIfInBounds index.toNat constant⟩

def tag (pool : ConstantPool) (index : UInt16) : ConstantTag := (pool.slot index).tag

/-- The refusal of a constant that is not what a look-up wanted. -/
def unexpected {α : Type} (index : UInt16) (found : Constant) (wanted : ConstantUse) :
    Except LoadError α :=
  .error (.invalidFormat (.unexpectedConstant index found.tag wanted))

def utf8 (pool : ConstantPool) (index : UInt16) : Except LoadError String := do
  match ← pool.get index with
  | .utf8 text => pure text
  | other => unexpected index other .utf8

def integer (pool : ConstantPool) (index : UInt16) : Except LoadError Int32 := do
  match ← pool.get index with
  | .integer value => pure value
  | other => unexpected index other .integer

def float (pool : ConstantPool) (index : UInt16) : Except LoadError UInt32 := do
  match ← pool.get index with
  | .float bits => pure bits
  | other => unexpected index other .float

def long (pool : ConstantPool) (index : UInt16) : Except LoadError Int64 := do
  match ← pool.get index with
  | .long value => pure value
  | other => unexpected index other .long

def double (pool : ConstantPool) (index : UInt16) : Except LoadError UInt64 := do
  match ← pool.get index with
  | .double bits => pure bits
  | other => unexpected index other .double

/-- Name of a class entry that is still symbolic. -/
def className (pool : ConstantPool) (index : UInt16) : Except LoadError String := do
  match ← pool.get index with
  | .cls nameIndex => pool.utf8 nameIndex
  | other => unexpected index other .cls

/-- Name and descriptor of a name-and-type entry. -/
def nameAndType (pool : ConstantPool) (index : UInt16) : Except LoadError (String × String) := do
  match ← pool.get index with
  | .nameAndType nameIndex descriptorIndex =>
    let name ← pool.utf8 nameIndex
    let descriptor ← pool.utf8 descriptorIndex
    pure (name, descriptor)
  | other => unexpected index other .nameAndType

/-- A member reference that is still symbolic: index of its class entry, name
and descriptor. -/
structure Member where
  classIndex : UInt16
  name : String
  descriptor : String
  deriving DecidableEq

def member (pool : ConstantPool) (index : UInt16) : Except LoadError Member := do
  match ← pool.get index with
  | .fieldRef classIndex natIndex | .methodRef classIndex natIndex
  | .interfaceMethodRef classIndex natIndex =>
    let (name, descriptor) ← pool.nameAndType natIndex
    pure ⟨classIndex, name, descriptor⟩
  | other => unexpected index other .member

theorem get_eq_ok_iff (pool : ConstantPool) (index : UInt16) (constant : Constant) :
    pool.get index = .ok constant ↔ pool.slot index = constant ∧ constant ≠ .empty := by
  unfold get
  split
  · next empty => simp only [empty]; constructor
                  · intro bad; cases bad
                  · rintro ⟨rfl, bad⟩; exact absurd rfl bad
  · next found => constructor
                  · intro equal; cases equal; exact ⟨rfl, found⟩
                  · rintro ⟨rfl, -⟩; rfl

end ConstantPool

end Jvm
