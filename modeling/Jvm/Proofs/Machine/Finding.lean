import Jvm.Native.Objects
import Jvm.Proofs.Heap.Retention
import Jvm.Proofs.Machine.Closed
import Jvm.Proofs.Registry.Faults

/-!
# Classes found by name

A program asks for a class by a name with dots. It gets the class object of the class that is
registered under the name, or an exception. Where a class that is needed is missing, that is the
exception for classes that are not found. Other failures to load are fatal: those of class
files, and of misspelt names of arrays.
-/

open Relation (ReflTransGen)

namespace Jvm

namespace Guest

variable {machine : Machine}

/-- The class object of a linked class is the one that the class keeps. -/
theorem ends_mirror_of_spacious (room : machine.Spacious) {id : ClassId}
    (known : machine.registry.Has id) :
    Ends (mirror id) machine
      (fun ref after => (after.cls id).mirror = some ref ∧
        ∀ name, after.registry.find? name = machine.registry.find? name)
      machine.FailsBuilding := by
  rw [mirror, ends_bind, ends_get]
  split
  · next ref kept => exact ends_pure.mpr ⟨kept, fun _ => rfl⟩
  · rw [ends_bind]
    refine (ends_newInstance_of_spacious room _).mono (fun ref between gains => ?_)
      fun _ _ fails => fails
    rw [ends_bind, ends_modify, ends_pure]
    have still : between.registry.Has id := gains.registry ▸ known
    have own := ClassTable.get_modify between.registry.toClassTable id id
      (fun cls => { cls with mirror := some ref }) still
    rw [if_pos rfl] at own
    refine ⟨congrArg (·.mirror) own, fun name => ?_⟩
    change between.registry.find? name = _
    rw [gains.registry]

end Guest

namespace ClassNative

open Guest

/-- The name of a class, with slashes for the dots. -/
def pathName (name : String) : String := name.map fun char => if char = '.' then '/' else char

/-- What is thrown where a class is asked for by a name: that the class is not found, that the heap
is full, that a class does not load, or that the first of these exceptions does not. -/
inductive Throws (machine : Machine) (name : String) (after : Machine) : Throw → Prop
  | notFound {ref : Ref} {id : ClassId}
      (cause : name.contains '/' = true ∨ ∃ table missing,
        machine.registry.path.Refuses table (pathName name) (.notFound missing))
      (named : after.registry.find? ExceptionKind.classNotFoundException.className = some id)
      (held : after.heap.class? ref = some id) : Throws machine name after (.exception ref)
  | full : Throws machine name after machine.outOfMemoryError
  | refused {error : LoadError}
      (cause : ArrayName.Misspelt (pathName name) error ∨ ∃ other,
        ReflTransGen machine.registry.path.Needs (pathName name) other ∧
          machine.registry.path.FileFault after.registry.toClassTable other error) :
      Throws machine name after (.fatal (.load error))
  | unmade {table : ClassTable} {error : LoadError}
      (cause : machine.registry.path.Refuses table
        ExceptionKind.classNotFoundException.className error) :
      Throws machine name after (.fatal (.load error))

variable {machine : Machine} {arguments : NativeArgs} {ref : Ref} {name : String}

/-- The exception for classes that are not found is raised by a machine whose linked classes may
have grown. -/
theorem throws_raise {between : Machine} (room : between.Spacious)
    (named : Linking.Named between.registry.toClassTable)
    (path : between.registry.path = machine.registry.path)
    (memory : between.outOfMemoryError = machine.outOfMemoryError)
    (cause : name.contains '/' = true ∨ ∃ table missing,
      machine.registry.path.Refuses table (pathName name) (.notFound missing))
    {returned : Value → Machine → Prop} :
    Ends (raise .classNotFoundException (some name) : Guest Value) between returned
      fun thrown after => Throws machine name after thrown := by
  refine (ends_raise_of_spacious room _ _).mono (fun _ _ never => never.elim) ?_
  rintro thrown after (⟨-, ref, id, rfl, known, held⟩ | fails)
  · exact .notFound cause known held
  · rcases fails.thrown with rfl | ⟨error, refused, rfl⟩
    · exact memory ▸ .full
    · exact .unmade (path ▸ Registry.refuses_of_load named refused)

theorem run_byName (given : arguments.ref 0 = some ref) (text : machine.stringText? ref = some name) :
    byName arguments machine =
      (if name.contains '/' then raise .classNotFoundException (some name)
      else do
        match ← loadRaw (pathName name) with
        | .ok cls => do pure (ofRef (← mirror cls))
        | .error (.notFound _) => raise .classNotFoundException (some name)
        | .error error => fatal (.load error) : Guest Value) machine := by
  rw [byName, given]
  refine (bind_of_ok rfl).trans ((bind_of_ok rfl).trans ?_)
  rw [text]
  rfl

/-- A class that is asked for by a string is given as its class object, or something is thrown
that can be caught, unless a class file is at fault, or the name of an array is misspelt. -/
theorem ends_byName (closed : machine.Closed) (room : machine.Spacious)
    (given : arguments.ref 0 = some ref) (text : machine.stringText? ref = some name) :
    Ends (byName arguments) machine
      (fun value after => ∃ id object, value = .ref (some object) ∧
        after.registry.find? (pathName name) = some id ∧ (after.cls id).mirror = some object)
      fun thrown after => Throws machine name after thrown := by
  rw [ends_congr (run_byName given text)]
  split
  · next slashed =>
    exact throws_raise room closed.registry.table.names rfl rfl (.inl slashed)
  · have linked := Machine.Preserves.load room (pathName name)
    have links := Registry.links_load closed.registry (pathName name)
    have found := (machine.registry.prefixes_load (pathName name)).2
    have path : (machine.registry.load (pathName name)).2.path = machine.registry.path :=
      Registry.path_answer (.load (pathName name))
    rw [ends_bind]
    refine Ends.of_ok (run_loadRaw (pathName name) machine) ?_
    cases loaded : (machine.registry.load (pathName name)).1 with
    | ok id =>
        rw [ends_bind]
        refine (ends_mirror_of_spacious (linked.spacious room) (links.has id loaded)).mono ?_ ?_
        · rintro object after ⟨kept, same⟩
          exact ends_pure.mpr ⟨id, object, rfl, (same _).trans (found id loaded), kept⟩
        · rintro thrown after fails
          rw [fails.thrown]
          exact .full
    | error error =>
        have refuses := Registry.refuses_of_load closed.registry.table.names loaded
        cases error with
        | notFound missing =>
            exact throws_raise (linked.spacious room) links.closed.table.names path rfl
              (.inr ⟨_, missing, refuses⟩)
        | invalidFormat _ | verifyFailed _ | circularity _ | io _ =>
            refine ends_throw.mpr (.refused ?_)
            cases refuses with
            | misspelt misspelt => exact .inl misspelt
            | file reached fault => exact .inr ⟨_, reached, fault⟩

/-- Asked for by a name without a class and without a file, a class is not found. -/
theorem byName_of_absent (room : machine.Spacious) (given : arguments.ref 0 = some ref)
    (text : machine.stringText? ref = some name) (plain : name.contains '/' = false)
    (ordinary : ArrayName.isArrayName (pathName name) = false)
    (absent : machine.registry.path.find? (pathName name) = none)
    (unknown : machine.registry.find? (pathName name) = none) :
    ∃ raised after, byName arguments machine = .error raised after ∧
      machine.Raised .classNotFoundException raised after := by
  have loaded := Registry.load_of_absent ordinary absent unknown
  obtain ⟨raised, after, ran, made⟩ :=
    Guest.exists_raise (α := Value) room .classNotFoundException (some name)
  refine ⟨raised, after, ?_, made⟩
  rw [run_byName given text, plain, if_neg Bool.false_ne_true]
  refine (bind_of_ok (run_loadRaw (pathName name) machine)).trans ?_
  rw [loaded]
  exact ran

/-- Asked for by a misspelt name of an array, a class is not merely not found: the execution
ends. -/
theorem byName_of_misspelt (given : arguments.ref 0 = some ref)
    (text : machine.stringText? ref = some name) (plain : name.contains '/' = false)
    (array : ArrayName.isArrayName (pathName name) = true) {error : LoadError}
    (refused : ArrayName.component (pathName name) = .error error)
    (unknown : machine.registry.find? (pathName name) = none) :
    byName arguments machine = .error (.fatal (.load error)) machine := by
  obtain ⟨fault, rfl⟩ := ArrayName.exists_fault_of_component refused
  rw [run_byName given text, plain, if_neg Bool.false_ne_true]
  refine (bind_of_ok (run_loadRaw (pathName name) machine)).trans ?_
  rw [Registry.load_of_misspelt array refused unknown]
  rfl

/-- A letter that stands for no kind of element. -/
example : ArrayName.component (pathName "[Q") =
    .error (.invalidFormat (.badArrayName "[Q")) := by
  decide +kernel

end ClassNative

end Jvm
