import Jvm.Error

/-!
# Reading bytes

A cursor is a byte sequence and an offset into it. Reads are big-endian and fail
when the bytes end too early; skipping never fails and may move past the end,
where the next read fails.
-/

namespace Jvm

/-- A position in a byte sequence. -/
structure Cursor where
  bytes : Array UInt8
  offset : Nat := 0
  deriving DecidableEq, Inhabited

/-- A computation that reads from a cursor. -/
abbrev Reader := StateT Cursor (Except LoadError)

namespace Cursor

/-- The next bytes, which stay unread. -/
def peek (count : Nat) : Reader (Array UInt8) := fun cursor =>
  if cursor.bytes.size < cursor.offset + count then
    .error (.invalidFormat (.cutShort count cursor.offset))
  else
    .ok (cursor.bytes.extract cursor.offset (cursor.offset + count), cursor)

/-- Moves on without reading. -/
def skip (count : Nat) : Reader Unit := fun cursor =>
  .ok ((), { cursor with offset := cursor.offset + count })

/-- All bytes not yet read. -/
def available (cursor : Cursor) : Array UInt8 :=
  cursor.bytes.extract cursor.offset cursor.bytes.size

/-- The byte at a distance from the offset; zero beyond the end. -/
def byteAt (cursor : Cursor) (distance : Nat) : UInt8 :=
  cursor.bytes.getD (cursor.offset + distance) 0

/-- Checks that so many bytes are left, and moves past them. The read starts at
the cursor that is returned. -/
def take (count : Nat) : Reader Cursor := fun cursor =>
  if cursor.bytes.size < cursor.offset + count then
    .error (.invalidFormat (.cutShort count cursor.offset))
  else
    .ok (cursor, { cursor with offset := cursor.offset + count })

def byte : Reader UInt8 := do
  let start ← take 1
  pure (start.byteAt 0)

def short : Reader UInt16 := do
  let start ← take 2
  pure (((start.byteAt 0).toUInt16 <<< 8) ||| (start.byteAt 1).toUInt16)

def word : Reader UInt32 := do
  let start ← take 4
  pure (((start.byteAt 0).toUInt32 <<< 24) ||| ((start.byteAt 1).toUInt32 <<< 16) |||
    ((start.byteAt 2).toUInt32 <<< 8) ||| (start.byteAt 3).toUInt32)

/-- Two words, high word first. -/
def longWord : Reader UInt64 := do
  let high ← word
  let low ← word
  pure ((high.toUInt64 <<< 32) ||| low.toUInt64)

/-- The next bytes. -/
def bytes? (count : Nat) : Reader (Array UInt8) := do
  let start ← take count
  pure (start.bytes.extract start.offset (start.offset + count))

/-- Reads the same thing a number of times, in order. -/
def many {α : Type} (count : Nat) (read : Reader α) : Reader (Array α) := go count #[]
where
  go : Nat → Array α → Reader (Array α)
    | 0, done => pure done
    | left + 1, done => do
      let next ← read
      go left (done.push next)

/-- Reads a number of times, each reading updating a result. -/
def fold {α : Type} (count : Nat) (start : α) (read : α → Reader α) : Reader α := go count start
where
  go : Nat → α → Reader α
    | 0, done => pure done
    | left + 1, done => do
      let next ← read done
      go left next

end Cursor

end Jvm
