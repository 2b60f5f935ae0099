import Jvm.Bootstrap
import Jvm.Proofs.Assembler.Costs
import Jvm.Proofs.Registry.Members
import Jvm.Proofs.Registry.Sorting

/-!
# Plain class files

A class file is plain if its superclass is no array class and, if it is of an interface, the
root. The bootstrap library consists of plain files: what its classes are assembled from can
be read off, and is what the files say.
-/

namespace Jvm

open ClassTable

/-- Whether a class file names no array class as its superclass and, if it is of an
interface, the root. -/
structure ClassFile.IsPlain (file : ClassFile) : Prop where
  superclass : ∀ name, file.superclass = some name → ArrayName.isArrayName name = false
  interface : file.IsInterface → file.superclass = some objectName

/-- Whether a class file is of an interface that extends no other. -/
structure ClassFile.IsMarker (file : ClassFile) : Prop where
  interface : file.IsInterface
  interfaces : file.interfaces = []

/-- Whether a name is that of an interface of all arrays. -/
def ArrayName.IsAbove (name : String) : Prop := name = cloneableName ∨ name = serializableName

instance (name : String) : Decidable (ArrayName.IsAbove name) :=
  inferInstanceAs (Decidable (_ ∨ _))

theorem ArrayName.IsAbove.ordinary {name : String} (above : ArrayName.IsAbove name) :
    ArrayName.isArrayName name = false := by
  rcases above with rfl | rfl <;> rfl

/-- Whether the files of a class path are plain, and where all arrays are below an interface it
is one that extends no other. -/
structure ClassPath.IsPlain (path : ClassPath) : Prop where
  files : ∀ file, path.Provides file → file.IsPlain
  markers : ∀ file, path.Provides file → ArrayName.IsAbove file.name → file.IsMarker

/-- The fields of strings: their bytes, how these are read and their hash. -/
def stringFields : List Signature := [⟨0x12, "value", "[B"⟩, ⟨0x12, "coder", "B"⟩, ⟨0x2, "hash", "I"⟩]

/-- Whether the root and strings have the fields that the machine writes: the root has none. -/
structure ClassFile.IsCore (file : ClassFile) : Prop where
  root : file.name = objectName →
    file.superclass = none ∧ file.fields.toList.map Signature.ofFieldInfo = []
  string : file.name = "java/lang/String" →
    file.superclass = some objectName ∧ file.fields.toList.map Signature.ofFieldInfo = stringFields

/-! ## Assembled files -/

theorem Except.isOk_iff {ε α : Type} {result : Except ε α} :
    result.isOk = true ↔ ∃ value, result = .ok value := by
  cases result with
  | ok value => exact iff_of_true rfl ⟨value, rfl⟩
  | error error => exact iff_of_false nofun nofun

namespace Assembler

instance : DecidablePred Part.Fits
  | .field _ _ descriptor _ =>
    decidable_of_iff ((Descriptor.fieldType descriptor).isOk = true) Except.isOk_iff
  | .method .. => inferInstanceAs (Decidable (_ ∧ _))
  | .bodiless _ _ descriptor =>
    decidable_of_iff ((MethodType.parse descriptor).isOk = true) Except.isOk_iff
  | .flags _ | .interface _ | .source _ => inferInstanceAs (Decidable True)

/-- The field that a part of a class declares. -/
def Part.signature? : Part → Option Signature
  | .field access name descriptor _ => some ⟨access, name, descriptor⟩
  | _ => none

theorem Part.map_ofFieldInfo {held : ConstantPool} {parts : List Part} {infos : List FieldInfo}
    (fields : List.Forall₂ (Part.IsField held) parts infos) :
    infos.map Signature.ofFieldInfo = parts.filterMap signature? := by
  induction fields with
  | nil => rfl
  | @cons part info _ _ here _ ih =>
      cases part with
      | field =>
          obtain ⟨rfl, rfl, rfl, -⟩ := here
          exact congrArg (Signature.ofFieldInfo info :: ·) ih
      | _ => exact here.elim

namespace ClassSpec

instance (spec : ClassSpec) : Decidable spec.IsModest :=
  decidable_of_iff ((∀ text ∈ spec.texts, IsShort text) ∧
      9 + (spec.parts.map Part.cost).sum < 65536 ∧ spec.parts.length < 65536 ∧
        ∀ part ∈ spec.parts, part.Fits)
    ⟨fun ⟨short, cost, few, parts⟩ => ⟨short, cost, few, parts⟩,
      fun modest => ⟨modest.short, modest.cost, modest.few, modest.parts⟩⟩

/-- Whether what is assembled is of an interface. -/
def IsInterface (spec : ClassSpec) : Prop :=
  Access.has ((spec.parts.filterMap Part.flags?).getLast?.getD spec.startFlags)
    Access.isInterface = true

instance (spec : ClassSpec) : Decidable spec.IsInterface := inferInstanceAs (Decidable (_ = _))

/-- Whether what is assembled is plain, and an interface that extends no other if all arrays are
to be below it. -/
structure IsPlain (spec : ClassSpec) : Prop where
  superclass : ∀ name ∈ spec.superclassName, ArrayName.isArrayName name = false
  interface : spec.IsInterface → spec.superclassName = some objectName
  marker : ArrayName.IsAbove spec.name →
    spec.IsInterface ∧ spec.parts.filterMap Part.interface? = []

instance (spec : ClassSpec) : Decidable spec.IsPlain :=
  decidable_of_iff ((∀ name ∈ spec.superclassName, ArrayName.isArrayName name = false) ∧
      (spec.IsInterface → spec.superclassName = some objectName) ∧
        (ArrayName.IsAbove spec.name →
          spec.IsInterface ∧ spec.parts.filterMap Part.interface? = []))
    ⟨fun ⟨superclass, interface, marker⟩ => ⟨superclass, interface, marker⟩,
      fun plain => ⟨plain.superclass, plain.interface, plain.marker⟩⟩

/-- Whether what is assembled has the fields that the machine writes. -/
structure IsCore (spec : ClassSpec) : Prop where
  root : spec.name = objectName →
    spec.superclassName = none ∧ spec.parts.filterMap Part.signature? = []
  string : spec.name = "java/lang/String" →
    spec.superclassName = some objectName ∧ spec.parts.filterMap Part.signature? = stringFields

instance (spec : ClassSpec) : Decidable spec.IsCore :=
  decidable_of_iff ((spec.name = objectName →
        spec.superclassName = none ∧ spec.parts.filterMap Part.signature? = []) ∧
      (spec.name = "java/lang/String" → spec.superclassName = some objectName ∧
        spec.parts.filterMap Part.signature? = stringFields))
    ⟨fun ⟨root, string⟩ => ⟨root, string⟩, fun core => ⟨core.root, core.string⟩⟩

variable {spec : ClassSpec} {file : ClassFile}

theorem Records.isInterface (records : spec.Records file) :
    file.IsInterface ↔ spec.IsInterface := by
  rw [ClassFile.IsInterface, IsInterface, records.flags]

theorem Records.isPlain (records : spec.Records file) (plain : spec.IsPlain) : file.IsPlain where
  superclass name declared := plain.superclass name (records.superclass.symm.trans declared)
  interface sort := records.superclass.trans (plain.interface (records.isInterface.mp sort))

theorem Records.isMarker (records : spec.Records file) (plain : spec.IsPlain)
    (isAbove : ArrayName.IsAbove file.name) : file.IsMarker := by
  have ⟨sort, alone⟩ := plain.marker (records.name ▸ isAbove)
  exact ⟨records.isInterface.mpr sort, records.interfaces.trans alone⟩

theorem Records.fields_eq (records : spec.Records file) :
    file.fields.toList.map Signature.ofFieldInfo = spec.parts.filterMap Part.signature? := by
  rw [Part.map_ofFieldInfo records.fields, List.filterMap_filter]
  exact List.filterMap_congr fun part _ => by cases part <;> rfl

theorem Records.isCore (records : spec.Records file) (core : spec.IsCore) : file.IsCore where
  root named := by
    rw [records.superclass, records.fields_eq]
    exact core.root (records.name.symm.trans named)
  string named := by
    rw [records.superclass, records.fields_eq]
    exact core.string (records.name.symm.trans named)

/-- What is written of a modest class is read as what was assembled. -/
theorem IsModest.records (modest : spec.IsModest) {bytes : Array UInt8}
    (written : spec.assemble = .ok bytes) (parsed : ClassFile.parse bytes = .ok file) :
    spec.Records file := by
  have faultless := ClassBuilder.fault_of_toBytes written
  obtain ⟨held, writes, records⟩ := modest.fits.exists_file faultless
  obtain ⟨bytes', written', sections⟩ := ClassBuilder.exists_toBytes faultless
  cases written.symm.trans written'
  cases parsed.symm.trans (ClassFile.parse_of_readsLast (sections ▸ writes.readsLast))
  exact records

end ClassSpec

end Assembler

/-! ## The bootstrap library -/

namespace ClassPath

variable {path first second : ClassPath} {name : String}

theorem mem_files_of_find? {bytes : Array UInt8} (found : path.find? name = some bytes) :
    (name, bytes) ∈ path.files := by
  rw [find?, List.lookup_eq_some_iff] at found
  obtain ⟨before, after, same, -⟩ := found
  exact same ▸ List.mem_append_right before (.head after)

theorem not_mem_names_of_find? (missing : path.find? name = none) : name ∉ path.names := by
  rw [find?, List.lookup_eq_none_iff] at missing
  rintro member
  obtain ⟨entry, inside, rfl⟩ := List.mem_map.mp member
  exact absurd (missing entry inside) (by simp)

theorem find?_append :
    (first ++ second).find? name = (first.find? name).or (second.find? name) := by
  show (first.files ++ second.files).lookup name = _
  rw [List.lookup_append]
  rfl

end ClassPath

namespace Bootstrap

open Assembler

/-- A class of the library with what is added to each. -/
def sourced (spec : ClassSpec) : ClassSpec :=
  { spec with parts := spec.parts ++ [Part.source "<bootstrap>"] }

theorem assemble_eq_ok {spec : ClassSpec} {entry : String × Array UInt8} :
    assemble spec = .ok entry ↔ entry.1 = spec.name ∧ (sourced spec).assemble = .ok entry.2 := by
  simp only [assemble, Except.bind_eq_ok, pure, Except.pure, Except.ok.injEq]
  constructor
  · rintro ⟨bytes, written, rfl⟩
    exact ⟨rfl, written⟩
  · rintro ⟨named, written⟩
    exact ⟨entry.2, written, Prod.ext named.symm rfl⟩

/-- Names that are found in the library. -/
def neededNames : List String :=
  [cloneableName, serializableName, ClassTable.objectName, "java/lang/String"]

/-- The library is assembled from modest and plain classes. -/
theorem exists_specs : ∃ specs : List ClassSpec,
    classPath = (do pure (.ofFiles (← specs.mapM assemble))) ∧
      (∀ spec ∈ specs, (sourced spec).IsModest ∧ (sourced spec).IsPlain ∧ (sourced spec).IsCore) ∧
        ∀ name ∈ neededNames, name ∈ specs.map (·.name) :=
  ⟨_, rfl, by decide +kernel⟩

variable {library : ClassPath} (assembled : classPath = .ok library)

include assembled

theorem exists_files : ∃ (specs : List ClassSpec) (files : List (String × Array UInt8)),
    library = .ofFiles files ∧
      List.Forall₂ (fun spec entry => entry.1 = spec.name ∧ (sourced spec).assemble = .ok entry.2)
        specs files ∧
      (∀ spec ∈ specs, (sourced spec).IsModest ∧ (sourced spec).IsPlain ∧ (sourced spec).IsCore) ∧
        ∀ name ∈ neededNames, name ∈ specs.map (·.name) := by
  obtain ⟨specs, written, known⟩ := exists_specs
  obtain ⟨files, ran, same⟩ := Except.bind_eq_ok.mp (written.symm.trans assembled)
  cases same
  exact ⟨specs, files, rfl, (mapM_eq_ok_iff.mp ran).imp fun _ _ => assemble_eq_ok.mp, known⟩

/-- What is found in the library is what one of these is assembled to. -/
theorem exists_spec_of_find? {name : String} {bytes : Array UInt8}
    (found : library.find? name = some bytes) : ∃ spec : ClassSpec,
      spec.assemble = .ok bytes ∧ spec.IsModest ∧ spec.IsPlain ∧ spec.IsCore := by
  obtain ⟨specs, files, rfl, every, each, -⟩ := exists_files assembled
  have member := List.mem_reverse.mp (ClassPath.mem_files_of_find? found)
  obtain ⟨index, inside, same⟩ := List.mem_iff_getElem.mp member
  have here := every.get (every.length_eq ▸ inside) inside
  rw [List.get_eq_getElem, List.get_eq_getElem, same] at here
  exact ⟨_, here.2, each _ (List.getElem_mem _)⟩

/-- The names that are needed are found there. -/
theorem find?_ne_none {name : String} (needed : name ∈ neededNames) :
    library.find? name ≠ none := by
  obtain ⟨specs, files, rfl, every, -, listed⟩ := exists_files assembled
  intro missing
  apply ClassPath.not_mem_names_of_find? missing
  have names : files.map Prod.fst = specs.map (·.name) := by
    clear assembled listed missing
    induction every with
    | nil => rfl
    | cons here _ ih => rw [List.map_cons, List.map_cons, here.1, ih]
  rw [ClassPath.names, ClassPath.ofFiles, List.map_reverse, List.mem_reverse, names]
  exact listed name needed

/-- A file that is found behind the library is assembled from one of its classes, or of the path
behind it. -/
theorem cases_of_provides {users : ClassPath} {file : ClassFile}
    (provided : (library ++ users).Provides file) :
    (∃ spec : ClassSpec, spec.Records file ∧ spec.IsPlain ∧ spec.IsCore) ∨
      library.find? file.name = none ∧ users.Provides file := by
  have loads := provided.loads
  rw [ClassPath.load, ClassPath.find?_append] at loads
  cases found : library.find? file.name with
  | some bytes =>
      obtain ⟨spec, written, modest, known⟩ := exists_spec_of_find? assembled found
      rw [found, Option.some_or] at loads
      obtain ⟨held, parsed, checked⟩ := Except.bind_eq_ok.mp loads
      split at checked
      next =>
          cases checked
          exact .inl ⟨spec, modest.records written parsed, known⟩
      next => cases checked
  | none =>
      rw [found, Option.none_or] at loads
      exact .inr ⟨rfl, loads, provided.ordinary⟩

end Bootstrap

/-- The library before a path of plain files is a path of plain files. -/
theorem ClassPath.isPlain_library_append {library users : ClassPath}
    (assembled : Bootstrap.classPath = .ok library)
    (plain : ∀ file, users.Provides file → file.IsPlain) : (library ++ users).IsPlain := by
  constructor
  · intro file provided
    rcases Bootstrap.cases_of_provides assembled provided with
      ⟨spec, records, same, -⟩ | ⟨-, provided⟩
    · exact records.isPlain same
    · exact plain file provided
  · intro file provided isAbove
    rcases Bootstrap.cases_of_provides assembled provided with
      ⟨spec, records, same, -⟩ | ⟨missing, -⟩
    · exact records.isMarker same isAbove
    · refine absurd missing (Bootstrap.find?_ne_none assembled ?_)
      rcases isAbove with same | same <;> rw [same] <;> decide

/-- The root and strings are found in the library. -/
theorem ClassPath.isCore_of_provides {library users : ClassPath}
    (assembled : Bootstrap.classPath = .ok library) {file : ClassFile}
    (provided : (library ++ users).Provides file) : file.IsCore := by
  rcases Bootstrap.cases_of_provides assembled provided with
    ⟨spec, records, -, core⟩ | ⟨missing, -⟩
  · exact records.isCore core
  · have other {name : String} (needed : name ∈ Bootstrap.neededNames) : file.name ≠ name :=
      fun same => Bootstrap.find?_ne_none assembled needed (same ▸ missing)
    exact ⟨fun same => (other (by decide) same).elim, fun same => (other (by decide) same).elim⟩

/-! ## The roots -/

namespace Registry

variable {file : ClassFile}

theorem bare_of_provides (provided : rootPath.Provides file) :
    file.IsBare 0x21 objectName none ∨
      ∃ name, ArrayName.IsAbove name ∧ file.IsBare 0x601 name (some objectName) := by
  have loads := provided.loads
  have known : file.name ∈ rootPath.names := by
    rw [ClassPath.load] at loads
    split at loads
    next bytes found => exact ClassPath.mem_names_of_find? found
    next => cases loads
  have bare {flags : UInt16} {name : String} {superclass : Option String}
      (same : file.name = name)
      (shown : (rootPath.load name).toOption.map (fun file => (file.flags, file.name,
        file.superclass, file.interfaces, file.fields.size + file.methods.size)) =
          some (flags, name, superclass, [], 0)) : file.IsBare flags name superclass := by
    obtain ⟨held, loads', bare⟩ := ClassFile.exists_bare shown
    cases (same ▸ loads).symm.trans loads'
    exact bare
  simp only [rootPath, ClassPath.names, List.map_cons, List.map_nil, List.mem_cons,
    List.not_mem_nil, or_false] at known
  rcases known with same | same | same
  · exact .inl (bare same (by decide +kernel))
  · exact .inr ⟨_, .inl rfl, bare same (by decide +kernel)⟩
  · exact .inr ⟨_, .inr rfl, bare same (by decide +kernel)⟩

theorem isPlain_rootPath : rootPath.IsPlain := by
  constructor
  · intro file provided
    rcases bare_of_provides provided with bare | ⟨name, -, bare⟩
    · refine ⟨fun name declared => ?_, fun interface => ?_⟩
      · cases bare.superclass.symm.trans declared
      · rw [ClassFile.IsInterface, bare.flags] at interface
        cases interface
    · refine ⟨fun name declared => ?_, fun _ => bare.superclass⟩
      cases bare.superclass.symm.trans declared
      rfl
  · intro file provided isAbove
    rcases bare_of_provides provided with bare | ⟨name, -, bare⟩
    · rw [bare.name] at isAbove
      exact absurd isAbove (by decide)
    · refine ⟨?_, bare.interfaces⟩
      rw [ClassFile.IsInterface, bare.flags]
      rfl

end Registry

end Jvm
