/-!
# Sets of indices

An index set records which slots of a stack hold references, or which objects of
a heap are reached. It answers membership for every index. The members are kept
as bits, sixty-four to a word, in only as many words as the largest member needs.
-/

namespace Jvm

/-- A set of indices, kept as the bits of its smaller indices. -/
structure IndexSet where
  words : Array UInt64 := #[]
  deriving DecidableEq, Inhabited, Repr

namespace IndexSet

def empty : IndexSet := {}

/-- The bit of an index in its word. -/
def bit (index : Nat) : UInt64 := 1 <<< UInt64.ofNat (index % 64)

/-- The word of an index. There are no members beyond the last word. -/
def word (indices : IndexSet) (index : Nat) : UInt64 := indices.words.getD (index / 64) 0

/-- The number of indices that have a bit. -/
def capacity (indices : IndexSet) : Nat := indices.words.size * 64

def contains (indices : IndexSet) (index : Nat) : Bool := indices.word index &&& bit index != 0

/-- Appends words without members. -/
def extend : Nat → Array UInt64 → Array UInt64
  | 0, words => words
  | count + 1, words => extend count (words.push 0)

/-- Adds an index. -/
def insert (indices : IndexSet) (index : Nat) : IndexSet :=
  let words := extend (index / 64 + 1 - indices.words.size) indices.words
  ⟨words.modify (index / 64) fun word => word ||| bit index⟩

/-- Removes an index. -/
def erase (indices : IndexSet) (index : Nat) : IndexSet :=
  ⟨indices.words.modify (index / 64) fun word => word &&& ~~~bit index⟩

/-- Adds or removes an index. -/
def set (indices : IndexSet) (index : Nat) (isMember : Bool) : IndexSet :=
  if isMember then indices.insert index else indices.erase index

/-- Removes so many indices from `start` on. -/
def eraseFrom (indices : IndexSet) (start : Nat) : Nat → IndexSet
  | 0 => indices
  | count + 1 => (indices.erase start).eraseFrom (start + 1) count

/-- Removes the indices of `[start, finish)`. -/
def eraseRange (indices : IndexSet) (start finish : Nat) : IndexSet :=
  indices.eraseFrom start (min finish indices.capacity - start)

/-- The members of `[start, finish)`, ascending. -/
def members (indices : IndexSet) (start finish : Nat) : List Nat :=
  ((List.range (min finish indices.capacity - start)).map (start + ·)).filter indices.contains

@[simp] theorem size_extend (count : Nat) (words : Array UInt64) :
    (extend count words).size = words.size + count := by
  induction count generalizing words with
  | zero => rfl
  | succ count ih => simp [extend, ih]; omega

end IndexSet

end Jvm
