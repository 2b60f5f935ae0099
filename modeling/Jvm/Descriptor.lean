import Jvm.Error

/-!
# Type descriptors

A descriptor spells a field type or a method type. It is read as a sequence of
items by a reader that yields, with each item, the text that is left; field types
and method types are then particular sequences of items. A refusal names the
whole text and the byte offset at which reading stopped.
-/

namespace Jvm

/-- One item of a descriptor. An object item holds the class name alone, an
array item its whole descriptor. -/
inductive TypeItem where
  | primitive (kind : Kind)
  | void
  | object (name : String)
  | array (descriptor : String)
  | openParen
  | closeParen
  deriving DecidableEq, Inhabited, Repr

namespace TypeItem

/-- Storage kind of an item that is a type of values. -/
def kind? : TypeItem → Option Kind
  | .primitive kind => some kind
  | .object _ | .array _ => some .reference
  | _ => none

/-- Name under which the class of an item is loaded. -/
def className? : TypeItem → Option String
  | .object name | .array name => some name
  | _ => none

end TypeItem

namespace Descriptor

/-- Bytes that a character takes. -/
def width (chars : List Char) : Nat := chars.foldl (fun total char => total + char.utf8Size) 0

/-- The characters up to a semicolon and those after it. -/
def splitName : List Char → Option (List Char × List Char)
  | [] => none
  | char :: rest =>
    if char = ';' then some ([], rest)
    else (splitName rest).map fun (name, rest) => (char :: name, rest)

theorem length_of_splitName {chars name rest : List Char}
    (split : splitName chars = some (name, rest)) : rest.length < chars.length := by
  induction chars generalizing name rest with
  | nil => simp [splitName] at split
  | cons char chars ih =>
    unfold splitName at split
    by_cases semicolon : char = ';'
    · simp only [semicolon, if_true, Option.some.injEq, Prod.mk.injEq] at split
      simp [split.2]
    · simp only [semicolon, if_false, Option.map_eq_some_iff, Prod.mk.injEq] at split
      obtain ⟨⟨name', rest'⟩, split', _, rfl⟩ := split
      exact Nat.lt_succ_of_lt (ih split')

/-- Where reading stopped: the text left, and the bytes of the refused character
beyond its first, which count as unread too. -/
structure Stop where
  rest : List Char
  unread : Nat := 0

/-- A reading step: the item and the text left, or where reading stopped. -/
abbrev Reading := Except Stop (TypeItem × List Char)

/-- Reads an item other than an array. -/
def readPlain : List Char → Reading
  | [] => .error ⟨[], 0⟩
  | '(' :: rest => .ok (.openParen, rest)
  | ')' :: rest => .ok (.closeParen, rest)
  | 'V' :: rest => .ok (.void, rest)
  | 'L' :: rest =>
    match splitName rest with
    | some (name@(_ :: _), rest) => .ok (.object (String.ofList name), rest)
    | _ => .error ⟨rest, 0⟩
  | char :: rest =>
    match Kind.ofDescriptorChar char with
    | some kind => .ok (.primitive kind, rest)
    | none => .error ⟨rest, char.utf8Size - 1⟩

/-- Reads one item. An array is at most 255 brackets and an element type. -/
def readItem (text : List Char) : Reading :=
  match text with
  | '[' :: _ =>
    let element := text.dropWhile (· = '[')
    if 255 < text.length - element.length ∨ element = [] then
      .error ⟨element, 0⟩
    else
      match readPlain element with
      | .error stop => .error stop
      | .ok (.primitive _, rest) | .ok (.object _, rest) =>
        .ok (.array (String.ofList (text.take (text.length - rest.length))), rest)
      | .ok (_, rest) => .error ⟨rest, 0⟩
  | _ => readPlain text

theorem length_of_readPlain {text rest : List Char} {item : TypeItem}
    (read : readPlain text = .ok (item, rest)) : rest.length < text.length := by
  unfold readPlain at read
  split at read
  all_goals try (cases read; done)
  all_goals try (cases read; simp)
  · split at read
    · next split =>
      cases read
      exact Nat.lt_succ_of_lt (length_of_splitName split)
    · cases read
  · split at read <;> cases read
    simp

theorem length_of_readItem {text rest : List Char} {item : TypeItem}
    (read : readItem text = .ok (item, rest)) : rest.length < text.length := by
  unfold readItem at read
  split at read
  · next tail =>
    have shorter : (('[' :: tail).dropWhile (· = '[')).length ≤ ('[' :: tail).length :=
      (List.dropWhile_suffix _).length_le
    simp only at read
    split at read
    · cases read
    · split at read
      · cases read
      · next plain => cases read; exact Nat.lt_of_lt_of_le (length_of_readPlain plain) shorter
      · next plain => cases read; exact Nat.lt_of_lt_of_le (length_of_readPlain plain) shorter
      · cases read
  · exact length_of_readPlain read

/-- The refusal of a descriptor at the place where reading stopped. -/
def refuse {α : Type} (text : String) (stop : Stop) : Except LoadError α :=
  .error (.invalidFormat
    (.badDescriptor text (text.utf8ByteSize - width stop.rest - stop.unread)))

/-- Where a further reading step leaves off, whether it succeeds or not. -/
def stopAfter (rest : List Char) : Stop :=
  match readItem rest with
  | .ok (_, rest) => ⟨rest, 0⟩
  | .error stop => stop

/-- The items of what is left of `text`, up to its end or the first refusal. -/
def itemsOf (text : String) (rest : List Char) : List (Except LoadError TypeItem) :=
  match rest with
  | [] => []
  | char :: tail =>
    match _read : readItem (char :: tail) with
    | .ok (item, rest) => .ok item :: itemsOf text rest
    | .error stop => [refuse text stop]
termination_by rest.length
decreasing_by exact length_of_readItem _read

/-- The items of a descriptor, up to its end or the first refusal. -/
def items (text : String) : List (Except LoadError TypeItem) := itemsOf text text.toList

/-- Accepts the end of a descriptor. -/
def ending (text : String) (rest : List Char) : Except LoadError Unit :=
  match rest with
  | [] => .ok ()
  | rest => refuse text (stopAfter rest)

/-- Reads a descriptor that is one field type. -/
def fieldType (text : String) : Except LoadError TypeItem :=
  match text.toList with
  | [] => refuse text ⟨[], 0⟩
  | chars =>
    match readItem chars with
    | .error stop => refuse text stop
    | .ok (item, rest) =>
      if item.kind?.isNone then refuse text ⟨rest, 0⟩
      else (ending text rest).map fun _ => item

end Descriptor

/-- A method type: kinds of the parameters and of the result, if it has one, and
the slots that the arguments take, counted in sixteen bits. -/
structure MethodType where
  params : List Kind
  ret : Option Kind
  argSlots : UInt16
  deriving DecidableEq, Inhabited, Repr

namespace MethodType

open Descriptor

/-- Parameters up to the closing parenthesis, and the text after it. -/
def params? (text : String) (rest : List Char) : Except LoadError (List Kind × List Char) :=
  match rest with
  | [] => refuse text ⟨[], 0⟩
  | char :: tail =>
    match _read : readItem (char :: tail) with
    | .error stop => refuse text stop
    | .ok (.closeParen, rest) => .ok ([], rest)
    | .ok (item, rest) =>
      match item.kind? with
      | none => refuse text ⟨rest, 0⟩
      | some kind =>
        match params? text rest with
        | .error error => .error error
        | .ok (kinds, rest) => .ok (kind :: kinds, rest)
termination_by rest.length
decreasing_by exact length_of_readItem _read

/-- Slots of the arguments, receiver excluded, in sixteen-bit arithmetic. -/
def slotCount (params : List Kind) : UInt16 :=
  params.foldl (fun total kind => total + UInt16.ofNat kind.slots) 0

/-- Reads the result type, which ends the descriptor. -/
def result? (text : String) (rest : List Char) : Except LoadError (Option Kind) :=
  match rest with
  | [] => refuse text ⟨[], 0⟩
  | rest =>
    match readItem rest with
    | .error stop => refuse text stop
    | .ok (.void, rest) => (ending text rest).map fun _ => none
    | .ok (item, rest) =>
      match item.kind? with
      | none => refuse text ⟨rest, 0⟩
      | some kind => (ending text rest).map fun _ => some kind

/-- Reads a method descriptor. -/
def parse (text : String) : Except LoadError MethodType :=
  match text.toList with
  | [] => refuse text ⟨[], 0⟩
  | chars =>
    match readItem chars with
    | .error stop => refuse text stop
    | .ok (.openParen, rest) => do
      let (params, rest) ← params? text rest
      let ret ← result? text rest
      pure ⟨params, ret, slotCount params⟩
    | .ok (_, rest) => refuse text ⟨rest, 0⟩

/-- What follows the first item of a descriptor, which may be a refused one: the
unread bytes of a refused character are refused in turn. -/
def afterFirst (text : String) : List (Except LoadError TypeItem) :=
  match text.toList with
  | [] => []
  | chars =>
    match readItem chars with
    | .ok (_, rest) => itemsOf text rest
    | .error ⟨rest, 0⟩ => itemsOf text rest
    | .error ⟨rest, unread + 1⟩ => [refuse text ⟨rest, unread⟩]

/-- Descriptors of the parameters: what follows the first item, up to a closing
parenthesis. -/
def paramTypes (text : String) : Except LoadError (List TypeItem) :=
  ((afterFirst text).takeWhile isParam).mapM id
where
  isParam : Except LoadError TypeItem → Bool
    | .ok .closeParen => false
    | _ => true

end MethodType

end Jvm
