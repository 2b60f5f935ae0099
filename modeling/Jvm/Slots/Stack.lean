import Jvm.IndexSet
import Jvm.Value

/-!
# Slot stacks

One array of slots holds the locals, the operands and the saved contexts of all
frames of an execution. `sp` is the first free slot; a tag marks the slots that
hold references. Reads outside the array give zero and pops below the bottom
stay there, so every operation is defined for every stack. Wide values take two
slots, low half first.
-/

namespace Jvm

/-- A stack of tagged slots. The array grows on demand; `limit` bounds what calls
may claim. -/
structure Stack where
  slots : Array Slot := #[]
  tags : IndexSet := {}
  sp : Nat := 0
  limit : Nat
  deriving DecidableEq, Repr

instance : Inhabited Stack := ⟨{ limit := 0 }⟩

/-- A slot with its tag. -/
abbrev TaggedSlot := Slot × Bool

namespace Slots

/-- The low and the high half of a wide value. -/
def low (bits : UInt64) : Slot := bits.toUInt32

def high (bits : UInt64) : Slot := (bits >>> 32).toUInt32

/-- A wide value from its halves. -/
def wide (low high : Slot) : UInt64 := (high.toUInt64 <<< 32) ||| low.toUInt64

theorem toNat_wide (lower upper : Slot) :
    (wide lower upper).toNat = upper.toNat * UInt32.size + lower.toNat := by
  have below := lower.toNat_lt
  have above := upper.toNat_lt
  have shifted : upper.toNat <<< 32 < 2 ^ 64 := by
    rw [Nat.shiftLeft_eq]
    omega
  rw [wide, UInt64.toNat_or, UInt64.toNat_shiftLeft, UInt32.toNat_toUInt64, UInt32.toNat_toUInt64,
    show UInt64.toNat 32 % 64 = 32 from rfl, Nat.mod_eq_of_lt shifted,
    ← Nat.shiftLeft_add_eq_or_of_lt (by omega), Nat.shiftLeft_eq]

theorem toNat_high (bits : UInt64) : (high bits).toNat = bits.toNat / UInt32.size := by
  have below := bits.toNat_lt
  rw [high, UInt64.toNat_toUInt32, UInt64.toNat_shiftRight, show UInt64.toNat 32 % 64 = 32 from rfl,
    Nat.shiftRight_eq_div_pow, UInt32.size]
  omega

@[simp] theorem low_wide (lower upper : Slot) : low (wide lower upper) = lower := by
  have below := lower.toNat_lt
  apply UInt32.toNat_inj.mp
  rw [low, UInt64.toNat_toUInt32, toNat_wide, UInt32.size]
  omega

@[simp] theorem high_wide (lower upper : Slot) : high (wide lower upper) = upper := by
  have below := lower.toNat_lt
  apply UInt32.toNat_inj.mp
  rw [toNat_high, toNat_wide, UInt32.size]
  omega

/-- A wide value has its two halves. -/
theorem wide_low_high (bits : UInt64) : wide (low bits) (high bits) = bits := by
  apply UInt64.toNat_inj.mp
  rw [toNat_wide, toNat_high, low, UInt64.toNat_toUInt32]
  exact Nat.div_add_mod' bits.toNat _

end Slots

namespace Stack

/-- An empty stack. -/
def ofLimit (limit : Nat) : Stack := { limit }

/-- Appends zero slots. -/
def extend : Nat → Array Slot → Array Slot
  | 0, slots => slots
  | count + 1, slots => extend count (slots.push 0)

/-- Makes the array hold at least so many slots. -/
def ensure (stack : Stack) (size : Nat) : Stack :=
  if stack.slots.size < size then
    { stack with slots := extend (size - stack.slots.size) stack.slots }
  else
    stack

/-- The raw slot at an index. -/
def raw (stack : Stack) (index : Nat) : Slot := stack.slots.getD index 0

def isRef (stack : Stack) (index : Nat) : Bool := stack.tags.contains index

/-- Writes a slot and its tag, wherever the top is. -/
def write (stack : Stack) (index : Nat) (value : Slot) (isRef : Bool) : Stack :=
  let stack := stack.ensure (index + 1)
  { stack with
    slots := stack.slots.setIfInBounds index value
    tags := stack.tags.set index isRef }

/-- Writes a scalar slot. -/
def setRaw (stack : Stack) (index : Nat) (value : Slot) : Stack := stack.write index value false

/-- Moves the top. Slots given up lose their tags. -/
def setSp (stack : Stack) (sp : Nat) : Stack :=
  if sp < stack.sp then
    { stack with tags := stack.tags.eraseRange sp stack.sp, sp }
  else
    { stack.ensure sp with sp }

/-- Gives up so many slots, at most all of them. -/
def discard (stack : Stack) (count : Nat) : Stack := stack.setSp (stack.sp - count)

/-- Makes the slots of `[start, start + count)` scalar zeros. -/
def zeroFrom (stack : Stack) (start : Nat) : Nat → Stack
  | 0 => stack
  | count + 1 => (stack.setRaw start 0).zeroFrom (start + 1) count

/-- Makes the slots of `[start, finish)` scalar zeros. -/
def zero (stack : Stack) (start finish : Nat) : Stack :=
  (stack.ensure finish).zeroFrom start (finish - start)

/-! ### Single slots -/

def push (stack : Stack) (value : Slot) : Stack :=
  let stack := stack.setRaw stack.sp value
  { stack with sp := stack.sp + 1 }

def pop (stack : Stack) : Slot × Stack :=
  let sp := stack.sp - 1
  (stack.raw sp, stack.setSp sp)

/-- A slot below the top, the top itself at depth zero. -/
def peek (stack : Stack) (depth : Nat) : Slot :=
  if depth < stack.sp then stack.raw (stack.sp - (depth + 1)) else 0

/-! ### Pairs of slots -/

/-- The wide value at an index; zero if it is not wholly inside the array. -/
def rawWide (stack : Stack) (index : Nat) : UInt64 :=
  if index + 1 < stack.slots.size then
    Slots.wide (stack.raw index) (stack.raw (index + 1))
  else
    0

def setRawWide (stack : Stack) (index : Nat) (bits : UInt64) : Stack :=
  (stack.setRaw index (Slots.low bits)).setRaw (index + 1) (Slots.high bits)

def pushWide (stack : Stack) (bits : UInt64) : Stack :=
  let stack := stack.setRawWide stack.sp bits
  { stack with sp := stack.sp + 2 }

def popWide (stack : Stack) : UInt64 × Stack :=
  let sp := stack.sp - 2
  (stack.rawWide sp, stack.setSp sp)

/-! ### References -/

def loadRef (stack : Stack) (index : Nat) : Option Ref := Ref.ofSlot (stack.raw index)

def storeRef (stack : Stack) (index : Nat) (ref : Option Ref) : Stack :=
  stack.write index (Ref.toSlot ref) true

def pushRef (stack : Stack) (ref : Option Ref) : Stack :=
  let stack := stack.storeRef stack.sp ref
  { stack with sp := stack.sp + 1 }

def popRef (stack : Stack) : Option Ref × Stack :=
  let (slot, stack) := stack.pop
  (Ref.ofSlot slot, stack)

/-- The reference below the top at a depth; null below the bottom. -/
def peekRef (stack : Stack) (depth : Nat) : Option Ref := Ref.ofSlot (stack.peek depth)

/-! ### Values -/

/-- Pushes a value; `void` pushes nothing. -/
def pushValue (stack : Stack) : Value → Stack
  | .void => stack
  | .int value => stack.push value.toUInt32
  | .long value => stack.pushWide value.toUInt64
  | .float bits => stack.push bits
  | .double bits => stack.pushWide bits
  | .ref ref => stack.pushRef ref

/-- Pops a value of a kind, narrowed to it. -/
def popValue (stack : Stack) (kind : Kind) : Value × Stack :=
  match kind with
  | .long =>
    let (bits, stack) := stack.popWide
    (.long bits.toInt64, stack)
  | .double =>
    let (bits, stack) := stack.popWide
    (.double bits, stack)
  | .float =>
    let (bits, stack) := stack.pop
    (.float bits, stack)
  | .reference =>
    let (ref, stack) := stack.popRef
    (.ref ref, stack)
  | kind =>
    let (slot, stack) := stack.pop
    (.int (kind.narrow slot.toInt32), stack)

/-! ### Rearrangement -/

/-- The slots of `[start, start + count)` with their tags. -/
def cells (stack : Stack) (start count : Nat) : List TaggedSlot :=
  (List.range count).map fun offset =>
    (stack.raw (start + offset), stack.isRef (start + offset))

/-- Writes cells from an index up. -/
def writeCells (stack : Stack) (start : Nat) : List TaggedSlot → Stack
  | [] => stack
  | (value, isRef) :: rest => (stack.write start value isRef).writeCells (start + 1) rest

/-- Exchanges the two top slots, if there are two. -/
def swap (stack : Stack) : Stack :=
  if stack.sp < 2 then stack
  else
    let lower := stack.sp - 2
    let upper := stack.sp - 1
    let cells := [(stack.raw upper, stack.isRef upper), (stack.raw lower, stack.isRef lower)]
    stack.writeCells lower cells

/-- Moves `count` slots from `start` up by `distance`, with their tags. The uppermost comes first,
so that none is overwritten before it is moved. -/
def moveUp (stack : Stack) (start distance : Nat) : Nat → Stack
  | 0 => stack
  | count + 1 =>
    let index := start + count
    (stack.write (index + distance) (stack.raw index) (stack.isRef index)).moveUp start distance
      count

/-- Copies the top `count` slots and inserts the copy below the top
`count + skip` slots; a stack with fewer is left alone. -/
def dup (stack : Stack) (count skip : Nat) : Stack :=
  if stack.sp < count + skip then stack
  else
    let base := stack.sp - (count + skip)
    let copied := stack.cells (stack.sp - count) count
    let stack := (stack.ensure (stack.sp + count)).moveUp base count (count + skip)
    let stack := stack.writeCells base copied
    { stack with sp := stack.sp + count }

/-- Moves `count` slots from `start` up by `distance`, and makes the slots they
leave scalar. -/
def shiftUp (stack : Stack) (start count distance : Nat) : Stack :=
  let stack := (stack.ensure (start + count + distance)).moveUp start distance count
  { stack with tags := stack.tags.eraseRange start (start + distance) }

/-- Adds to an `int` slot. -/
def increment (stack : Stack) (index : Nat) (delta : Int32) : Stack :=
  stack.setRaw index (stack.raw index + delta.toUInt32)

/-! ### Views -/

/-- The raw slots of `[start, start + count)`. -/
def rawSlots (stack : Stack) (start count : Nat) : List Slot :=
  (List.range count).map fun offset => stack.raw (start + offset)

/-- Non-null references in the tagged slots of `[start, finish)`. -/
def refs (stack : Stack) (start finish : Nat) : List Ref :=
  (stack.tags.members start (min finish stack.slots.size)).filterMap stack.loadRef

/-- The slots below the top with their tags, bottom first. -/
def toList (stack : Stack) : List TaggedSlot := stack.cells 0 stack.sp

/-- Empties the stack; its array and its limit stay. -/
def reset (stack : Stack) : Stack :=
  { stack with tags := stack.tags.eraseRange 0 stack.sp, sp := 0 }

end Stack

end Jvm
