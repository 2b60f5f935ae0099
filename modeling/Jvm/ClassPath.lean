import Jvm.ClassFile.Parser

/-!
# Class paths

A class path holds class files under the names they are looked up by. It is
searched from its front; a file that is found must declare the class it was
looked up as.
-/

namespace Jvm

/-- Class files in search order. -/
structure ClassPath where
  files : List (String × Array UInt8) := []
  deriving DecidableEq, Inhabited

namespace ClassPath

/-- The path of one entry. Of two files of one name the later counts. -/
def ofFiles (files : List (String × Array UInt8)) : ClassPath := ⟨files.reverse⟩

/-- Searches one path before another. -/
def append (first second : ClassPath) : ClassPath := ⟨first.files ++ second.files⟩

instance : Append ClassPath := ⟨append⟩

/-- The names that are found. -/
def names (path : ClassPath) : List String := path.files.map Prod.fst

/-- The file found under a name. -/
def find? (path : ClassPath) (name : String) : Option (Array UInt8) := path.files.lookup name

theorem mem_names_of_find? {path : ClassPath} {name : String} {bytes : Array UInt8}
    (found : path.find? name = some bytes) : name ∈ path.names := by
  obtain ⟨files⟩ := path
  simp only [find?, names] at found ⊢
  induction files with
  | nil => simp at found
  | cons file rest ih =>
    obtain ⟨key, content⟩ := file
    simp only [List.lookup_cons] at found
    split at found
    · next same => simp_all
    · simp [ih found]

/-- Decodes a file that was found under a name. -/
def read (name : String) (bytes : Array UInt8) : Except LoadError ClassFile := do
  let file ← ClassFile.parse bytes
  if file.name = name then pure file
  else throw (.invalidFormat (.misnamed (name ++ ".class") file.name))

/-- Finds and decodes a class file. -/
def load (path : ClassPath) (name : String) : Except LoadError ClassFile :=
  match path.find? name with
  | some bytes => read name bytes
  | none => .error (.notFound name)

/-- How many files of the path are not being linked yet. -/
def unvisited (path : ClassPath) (linking : List String) : Nat :=
  (path.names.filter (· ∉ linking)).length

theorem unvisited_cons_lt {path : ClassPath} {linking : List String} {name : String}
    (named : name ∈ path.names) (fresh : name ∉ linking) :
    path.unvisited (name :: linking) < path.unvisited linking := by
  simp only [unvisited]
  generalize path.names = names at named
  induction names with
  | nil => cases named
  | cons head tail ih =>
    have weaker : (tail.filter (· ∉ name :: linking)).length ≤
        (tail.filter (· ∉ linking)).length := by
      apply List.Sublist.length_le
      have : tail.filter (· ∉ name :: linking) =
          (tail.filter (· ∉ linking)).filter (· ≠ name) := by
        rw [List.filter_filter]
        apply List.filter_congr
        intro item _
        by_cases same : item = name <;> simp [same]
      rw [this]
      exact List.filter_sublist
    by_cases same : head = name
    · subst same
      simp [fresh]
      simpa using Nat.lt_succ_of_le weaker
    · have later : name ∈ tail := by
        cases named with
        | head => exact absurd rfl same
        | tail _ later => exact later
      have shorter := ih later
      by_cases seen : head ∈ linking <;> simp_all

end ClassPath

end Jvm
