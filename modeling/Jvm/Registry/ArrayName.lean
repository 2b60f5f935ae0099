import Jvm.Error

/-!
# Names of array classes

The name of an array class is a bracket and a description of the component:
another array name, a class name between `L` and `;`, or the letter of a
primitive kind.
-/

namespace Jvm.ArrayName

/-- What an array is made of. -/
inductive Component where
  | primitive (kind : Kind)
  /-- A class or array class by its name. -/
  | named (name : String)
  deriving DecidableEq

/-- Whether a name is that of an array class. -/
def isArrayName (name : String) : Bool := name.toList.head? == some '['

/-- Leading brackets of a name. -/
def dimensions (name : String) : Nat := (name.toList.takeWhile (· == '[')).length

/-- What is between `L` and `;`. -/
def classBetween? (chars : List Char) : Option (List Char) :=
  match chars with
  | 'L' :: rest => if rest.getLast? = some ';' then some rest.dropLast else none
  | _ => none

/-- The component that a name describes behind its first bracket. -/
def component (name : String) : Except LoadError Component :=
  if 255 < dimensions name then .error (.invalidFormat (.tooManyDimensions name))
  else
    let inner := name.toList.tail
    if 1 < dimensions name then .ok (.named (String.ofList inner))
    else
      match classBetween? inner with
      | some name => .ok (.named (String.ofList name))
      | none =>
        match inner.map Kind.ofDescriptorChar with
        | [some kind] =>
          if kind.isReference then .error (.invalidFormat (.badArrayName name))
          else .ok (.primitive kind)
        | _ => .error (.invalidFormat (.badArrayName name))

/-- The name of the array class of a component class. -/
def ofComponent (name : String) (isArray : Bool) : String :=
  if isArray then "[" ++ name else "[L" ++ name ++ ";"

theorem length_classBetween? {chars name : List Char} (between : classBetween? chars = some name) :
    name.length ≤ chars.length := by
  unfold classBetween? at between
  split at between
  · split at between
    · cases between
      simp
      omega
    · cases between
  · cases between

/-- A component's name is shorter than the name of its array. -/
theorem length_component {name inner : String} (array : isArrayName name = true)
    (found : component name = .ok (.named inner)) : inner.length < name.length := by
  have nonempty : name.toList.tail.length < name.length := by
    rw [← String.length_toList]
    cases chars : name.toList with
    | nil => simp [isArrayName, chars] at array
    | cons head tail => simp
  unfold component at found
  split at found
  · cases found
  · dsimp only at found
    split at found
    · cases found
      simpa using nonempty
    · split at found
      · next between =>
        cases found
        have := length_classBetween? between
        simp only [String.length_ofList]
        omega
      · split at found
        · split at found <;> cases found
        · cases found

end Jvm.ArrayName
