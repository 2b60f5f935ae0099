import Jvm.Proofs.Registry.Known

/-!
# Ordinary classes and array classes

A class is ordinary if it is linked from a file, and an array class if it is made up. Which
of the two it is, its name tells as far as the file does not: a file that is linked past the
class path may have the name of an array class. A file may also name an array class as its
superclass, and the file of an interface need not name the root.
-/

namespace Jvm

open ClassTable Linking

/-- Whether a class is linked from a file. -/
def Class.IsOf (cls : Class) (file : ClassFile) : Prop :=
  ∃ superclass interfaces, Class.link cls.id file superclass interfaces = .ok cls

/-- Whether a class is made up for an array. -/
structure Class.IsMade (cls : Class) : Prop where
  array : cls.isArray = true
  named : ArrayName.isArrayName cls.name = true
  sort : cls.isInterface = false

theorem Class.isMade_ofArray {name : String} (array : ArrayName.isArrayName name = true)
    (id : ClassId) (element : Kind) (component : Option ClassId) (superclass : ClassId)
    (interfaces : List ClassId) :
    (Class.ofArray id name element component superclass interfaces).IsMade where
  array := rfl
  named := array
  sort := by
    simp only [Class.isInterface, Class.ofArray]
    decide

/-- Whether a file is of an interface. -/
def ClassFile.IsInterface (file : ClassFile) : Prop :=
  Access.has file.flags Access.isInterface = true

namespace Class.IsOf

variable {cls : Class} {file : ClassFile}

theorem name (linked : cls.IsOf file) : cls.name = file.name := by
  obtain ⟨superclass, interfaces, linked⟩ := linked
  exact (links_of_link linked).name

theorem isArray (linked : cls.IsOf file) : cls.isArray = false := by
  obtain ⟨superclass, interfaces, linked⟩ := linked
  rw [Class.isArray, (links_of_link linked).array]
  rfl

theorem isInterface (linked : cls.IsOf file) : cls.isInterface = true ↔ file.IsInterface := by
  obtain ⟨superclass, interfaces, linked⟩ := linked
  rw [Class.isInterface, (links_of_link linked).flags, ClassFile.IsInterface]

end Class.IsOf

namespace ClassTable

/-- Whether a class is linked from a file below the superclass that the file names. -/
structure Holds (table : ClassTable) (cls : Class) (file : ClassFile) : Prop where
  linked : cls.IsOf file
  superclass : ∀ name, file.superclass = some name →
    ∃ above, cls.superclass = some above ∧ table.Has above ∧ (table.get above).name = name
  root : file.superclass = none → cls.superclass = none

/-- Whether each class of a table is made up for an array or linked from a file, and those
that do not have the names of arrays are found by theirs. -/
structure Sorted (source : ClassFile → Prop) (table : ClassTable) : Prop where
  own : ∀ id, table.Has id → (table.get id).id = id
  names : ∀ name id, table.find? name = some id → table.Has id ∧ (table.get id).name = name
  found : ∀ id, table.Has id → ArrayName.isArrayName (table.get id).name = false →
    table.find? (table.get id).name = some id
  sorts : ∀ id, table.Has id →
    (table.get id).IsMade ∨ ∃ file, source file ∧ table.Holds (table.get id) file

namespace Sorted

variable {source : ClassFile → Prop} {table : ClassTable}

theorem empty : Sorted source {} where
  own _ known := absurd known (Nat.not_lt_zero _)
  names name _ found := nomatch (find?_empty name).symm.trans found
  found _ known := absurd known (Nat.not_lt_zero _)
  sorts _ known := absurd known (Nat.not_lt_zero _)

theorem named (sorted : table.Sorted source) : Named table :=
  fun name id found => (sorted.names name id found).1

end Sorted

/-- A class is linked from its file also once there are more classes. -/
theorem Holds.register {table : ClassTable} {cls : Class} {file : ClassFile}
    (holds : table.Holds cls file) (next : Class) : (table.register next).Holds cls file where
  linked := holds.linked
  superclass name declared := by
    obtain ⟨above, same, known, named⟩ := holds.superclass name declared
    refine ⟨above, same, (growsTo_register table next).has known, ?_⟩
    rw [get_register_of_has table next known, named]
  root := holds.root

theorem Sorted.register {source : ClassFile → Prop} {table : ClassTable}
    (sorted : table.Sorted source) {cls : Class} (own : cls.id = table.nextId)
    (unnamed : ArrayName.isArrayName cls.name = false → table.find? cls.name = none)
    (sort : cls.IsMade ∨ ∃ file, source file ∧ table.Holds cls file) :
    (table.register cls).Sorted source where
  own := forall_register (fun id cls => cls.id = id) sorted.own own
  names := names_register sorted.names
  found id known ordinary := by
    rcases has_register table cls known with before | rfl
    · rw [get_register_of_has table cls before] at ordinary ⊢
      have found := sorted.found id before ordinary
      rw [find?_register, if_neg]
      · exact found
      · intro same
        rw [← same] at ordinary found
        cases (unnamed ordinary).symm.trans found
    · rw [get_register_nextId, find?_register, if_pos rfl]
  sorts id known := by
    rcases has_register table cls known with before | rfl
    · rw [get_register_of_has table cls before]
      refine (sorted.sorts id before).imp_right ?_
      rintro ⟨file, provided, holds⟩
      exact ⟨file, provided, holds.register cls⟩
    · rw [get_register_nextId]
      refine sort.imp_right ?_
      rintro ⟨file, provided, holds⟩
      exact ⟨file, provided, holds.register cls⟩

end ClassTable

/-! ## Registrations under any name -/

namespace Linking

/-- The registration of a class under any name. That of an array class or of an ordinary one
is not known before, but a file with the name of an array class may come second. -/
inductive Joins (source : ClassFile → Prop) (table : ClassTable) : ClassTable → Prop
  | file {file : ClassFile} {superclass : Option ClassId} {interfaces : List ClassId} {cls : Class}
      (provided : source file) (unnamed : file.IsOrdinary → table.find? file.name = none)
      (above : file.Above table superclass interfaces)
      (linked : Class.link table.nextId file (superclass.map table.get) interfaces = .ok cls) :
      Joins source table (table.register cls)
  | array {name : String} {kind : Kind} {component : Option ClassId}
      {object cloneable serializable : ClassId} (array : ArrayName.isArrayName name = true)
      (made : ArrayName.Made table name kind component)
      (root : table.find? objectName = some object)
      (first : table.find? cloneableName = some cloneable)
      (second : table.find? serializableName = some serializable) :
      Joins source table (table.register
        (Class.ofArray table.nextId name kind component object [cloneable, serializable]))

section

variable {source : ClassFile → Prop} {linking : List String} {before after : ClassTable}

theorem Registers.joins {path : ClassPath} {defines : ClassFile → Prop}
    (registers : Registers path.Provides linking before after) :
    Joins (path.Offers defines) before after := by
  cases registers with
  | file provided _ unnamed above linked =>
      exact .file (.inl provided) (fun _ => unnamed) above linked
  | array array _ made root first second => exact .array array made root first second

theorem Joins.sorted (joins : Joins source before after) (sorted : before.Sorted source) :
    after.Sorted source := by
  cases joins with
  | @file file superclass interfaces cls provided unnamed above linked =>
      have links := links_of_link linked
      refine sorted.register links.id ?_ (.inr ⟨file, provided, ?_⟩)
      · rw [links.name]
        exact unnamed
      constructor
      case linked => exact ⟨_, _, links.id.symm ▸ linked⟩
      case superclass =>
        intro name declared
        obtain ⟨id, rfl, found, -⟩ := above.nearest name declared
        obtain ⟨known, same⟩ := sorted.names name id found
        exact ⟨id, links.superclass.trans (congrArg some (sorted.own id known)), known, same⟩
      case root =>
        intro missing
        rw [links.superclass, (above.root missing).1]
        rfl
  | array array =>
      exact sorted.register rfl (fun ordinary => nomatch array.symm.trans ordinary)
        (.inl (Class.isMade_ofArray array ..))

end

end Linking

section

variable {path : ClassPath} {defines : ClassFile → Prop} {table : ClassTable}

/-- Every request is answered by registrations. -/
theorem Request.joins_steps (request : Request) (path : ClassPath) (accepted : request.Accepted defines table)
    (named : Named table) :
    Jvm.Ends (request.steps path) table
      (fun _ after => Relation.ReflTransGen (Joins (path.Offers defines)) table after)
      fun _ after => Relation.ReflTransGen (Joins (path.Offers defines)) table after := by
  have joins {linking : List String} {after : ClassTable}
      (extended : Extends path.Provides linking table after) :
      Relation.ReflTransGen (Joins (path.Offers defines)) table after :=
    Relation.ReflTransGen.mono (fun _ _ registers => registers.joins) _ _ extended
  have loads (name : String) := (loads_load path [] name table named).mono
    (fun _ _ obtained => joins obtained.1.extends) fun _ _ failed => joins failed.1
  cases request with
  | load name => exact loads name
  | arrayOf component =>
      rw [steps, Linking.arrayOf, ends_bind, ends_get]
      exact loads _
  | define bytes =>
      rw [steps, Linking.defineClass, ends_bind]
      cases parsed : ClassFile.parse bytes with
      | error error => exact ends_throw.mpr .refl
      | ok file =>
          refine ends_pure.mpr ?_
          rw [ends_bind, ends_get]
          split
          next => exact ends_throw.mpr .refl
          next unnamed =>
              refine (Linking.ends_define path [file.name] file table named).mono ?_
                fun _ _ extended => joins extended
              rintro id after ⟨middle, rfl, extended, superclass, interfaces, cls, above, linked, rfl⟩
              refine .tail (joins extended) (.file (.inr (accepted file parsed)) ?_ above linked)
              exact fun ordinary =>
                unnamed_of_linking extended ordinary List.mem_cons_self unnamed

namespace Registry

variable {registry : Registry}

/-- What every registration keeps is kept while a request is answered. -/
theorem answer_induct {motive : ClassTable → Prop} {request : Request}
    (accepted : request.Accepted defines registry.toClassTable)
    (named : Named registry.toClassTable)
    (step : ∀ {before after}, Joins (registry.path.Offers defines) before after → motive before →
      motive after) (start : motive registry.toClassTable) :
    motive (registry.answer request).2.toClassTable := by
  have ends := request.joins_steps registry.path accepted named
  have kept {after : ClassTable}
      (joined : Relation.ReflTransGen (Joins (registry.path.Offers defines))
        registry.toClassTable after) : motive after := by
    induction joined with
    | refl => exact start
    | tail _ joins ih => exact step joins ih
  rw [answer_eq, link, EStateM.run]
  cases ran : request.steps registry.path registry.toClassTable with
  | ok id after =>
      have joined := ends_of_ok ran ends
      exact kept joined
  | error error after =>
      have joined := ends_of_error ran ends
      exact kept joined

theorem path_answer (request : Request) : (registry.answer request).2.path = registry.path := by
  rw [answer_eq, link]
  split <;> rfl

theorem sorted_answer {request : Request} (sorted : registry.Sorted (registry.path.Offers defines))
    (accepted : request.Accepted defines registry.toClassTable) :
    (registry.answer request).2.path = registry.path ∧
      (registry.answer request).2.Sorted (registry.path.Offers defines) :=
  ⟨path_answer request, answer_induct accepted sorted.named (fun joins => joins.sorted) sorted⟩

theorem Serves.sorted (serves : registry.Serves defines path) :
    registry.path = path ∧ registry.Sorted (path.Offers defines) := by
  induction serves with
  | refl => exact ⟨rfl, .empty⟩
  | tail _ step ih =>
      obtain ⟨request, accepted, rfl⟩ := step
      obtain ⟨rfl, sorted⟩ := ih
      exact sorted_answer sorted accepted

end Registry

/-! ## What the names tell -/

namespace ClassTable.Sorted

variable {source : ClassFile → Prop} (sorted : table.Sorted source)

include sorted

/-- An ordinary class has an array class above it only if a file on the way up names one. -/
theorem exists_names_array {id : ClassId} (known : table.Has id)
    (ordinary : (table.get id).isArray = false) {above : ClassId}
    (member : above ∈ table.superChain id) (array : (table.get above).isArray = true) :
    ∃ lower ∈ table.superChain id, ∃ file name, source file ∧ (table.get lower).IsOf file ∧
      file.superclass = some name ∧ ArrayName.isArrayName name = true := by
  induction id using superChain.induct table with
  | case1 id top =>
      rw [superChain, top, List.mem_singleton] at member
      subst member
      cases array.symm.trans ordinary
  | case2 id next found ih =>
      rw [superChain, found, List.mem_cons] at member
      rw [superChain, found]
      rcases member with rfl | member
      · cases array.symm.trans ordinary
      have declared : (table.get id).superclass = some next := by
        simp only [superclass?, Option.filter_eq_some_iff] at found
        exact found.1
      rcases sorted.sorts id known with made | ⟨file, provided, holds⟩
      · cases made.array.symm.trans ordinary
      cases named : file.superclass with
      | none => cases declared.symm.trans (holds.root named)
      | some name =>
          obtain ⟨other, same, inside, called⟩ := holds.superclass name named
          cases declared.symm.trans same
          cases sort : (table.get next).isArray with
          | false =>
              obtain ⟨lower, chain, further⟩ := ih inside sort member
              exact ⟨lower, .tail _ chain, further⟩
          | true =>
              rcases sorted.sorts next inside with made | ⟨_, _, holds⟩
              · exact ⟨id, .head _, file, name, provided, holds.linked, named, called ▸ made.named⟩
              · cases sort.symm.trans holds.linked.isArray

/-- An interface is below the root, unless its file names another superclass or none. -/
theorem superclass_of_interface {id : ClassId} (known : table.Has id)
    (interface : (table.get id).isInterface = true) :
    (∃ root, (table.get id).superclass = some root ∧ table.find? objectName = some root) ∨
      ∃ file, source file ∧ (table.get id).IsOf file ∧ file.IsInterface ∧
        file.superclass ≠ some objectName := by
  rcases sorted.sorts id known with made | ⟨file, provided, holds⟩
  · cases made.sort.symm.trans interface
  by_cases named : file.superclass = some objectName
  · obtain ⟨above, same, inside, called⟩ := holds.superclass objectName named
    have found := sorted.found above inside (called ▸ rfl)
    exact .inl ⟨above, same, called ▸ found⟩
  · exact .inr ⟨file, provided, holds.linked, holds.linked.isInterface.mp interface, named⟩

end ClassTable.Sorted

end

namespace Registry

variable {path : ClassPath} {defines : ClassFile → Prop} {registry : Registry}

/-- Whatever files a registry is given: an array class has the name of one, and so does no
ordinary class but from a file of that name that was linked past the class path; an ordinary
class has an array class on its superclass chain only if the file of a class on that chain
names one as superclass; and an interface is directly below the root unless its file names
another superclass, or none. -/
theorem sorts_of_serves (serves : registry.Serves defines path) (id : ClassId)
    (known : registry.Has id) :
    ((registry.get id).isArray = true → ArrayName.isArrayName (registry.get id).name = true) ∧
    (ArrayName.isArrayName (registry.get id).name = true → (registry.get id).isArray = true ∨
      ∃ file, defines file ∧ (registry.get id).IsOf file ∧ ¬file.IsOrdinary) ∧
    ((registry.get id).isArray = false → ∀ above ∈ registry.superChain id,
      (registry.get above).isArray = true → ∃ lower ∈ registry.superChain id, ∃ file name,
        path.Offers defines file ∧ (registry.get lower).IsOf file ∧
          file.superclass = some name ∧ ArrayName.isArrayName name = true) ∧
    ((registry.get id).isInterface = true →
      (∃ root, (registry.get id).superclass = some root ∧
        registry.find? objectName = some root) ∨
      ∃ file, path.Offers defines file ∧ (registry.get id).IsOf file ∧ file.IsInterface ∧
        file.superclass ≠ some objectName) := by
  obtain ⟨-, sorted⟩ := serves.sorted
  refine ⟨fun array => ?_, fun named => ?_, fun ordinary above member array =>
    sorted.exists_names_array known ordinary member array, sorted.superclass_of_interface known⟩
  · rcases sorted.sorts id known with made | ⟨file, _, holds⟩
    · exact made.named
    · cases array.symm.trans holds.linked.isArray
  · rcases sorted.sorts id known with made | ⟨file, provided | defined, holds⟩
    · exact .inl made.array
    · rw [holds.linked.name, provided.ordinary] at named
      cases named
    · refine .inr ⟨file, defined, holds.linked, ?_⟩
      rw [ClassFile.IsOrdinary, ← holds.linked.name, named]
      exact Bool.noConfusion

/-- The bytes of an interface that has the name of an array class and names another one as
its superclass. -/
def tangledBytes : Array UInt8 := ClassFile.bare 0x601 "[Q" (some "[I")

/-- A registry that was given such a file. -/
def tangled : Registry :=
  ((rooted.answer (.load "[I")).2.answer (.define tangledBytes)).2

theorem serves_tangled : tangled.Serves (fun _ => True) rootPath :=
  ((serves_rooted _).tail ⟨.load "[I", trivial, rfl⟩).tail
    ⟨.define tangledBytes, fun _ _ => trivial, rfl⟩

/-- The array class is the fourth class and the interface the fifth. -/
theorem exists_tangled : ∃ array cls : Class, array.IsMade ∧ tangled.get ⟨3⟩ = array ∧
    cls.name = "[Q" ∧ cls.isArray = false ∧ cls.isInterface = true ∧
    cls.superclass = some ⟨3⟩ ∧ tangled.get ⟨4⟩ = cls ∧ tangled.Has ⟨4⟩ ∧
    tangled.find? objectName = some ⟨0⟩ := by
  obtain ⟨-, size, roots, unnamed⟩ := hasRoots_rooted
  have third : rooted.nextId = ⟨3⟩ := congrArg ClassId.mk size
  have first := adds_array rfl (unnamed "[I" (by decide)) (.primitive rfl) roots
  have made := Class.isMade_ofArray (rfl : ArrayName.isArrayName "[I" = true) rooted.nextId .int
    none ⟨0⟩ [⟨1⟩, ⟨2⟩]
  have own : (Class.ofArray rooted.nextId "[I" .int none ⟨0⟩ [⟨1⟩, ⟨2⟩]).id = rooted.nextId := rfl
  have called : (Class.ofArray rooted.nextId "[I" .int none ⟨0⟩ [⟨1⟩, ⟨2⟩]).name = "[I" := rfl
  -- from here on the array class is known by these facts only
  generalize Class.ofArray rooted.nextId "[I" .int none ⟨0⟩ [⟨1⟩, ⟨2⟩] = array at *
  obtain ⟨file, parsed, bare⟩ : ∃ file, ClassFile.parse tangledBytes = .ok file ∧
      file.IsBare 0x601 "[Q" (some "[I") := ClassFile.exists_bare (by decide +kernel)
  have known := first.knows_self
  rw [called, made.sort] at known
  have free : (rooted.answer (.load "[I")).2.find? "[Q" = none :=
    (first.find?_of_ne (called ▸ by decide)).trans (unnamed "[Q" (by decide))
  obtain ⟨cls, links, second⟩ := exists_adds_define parsed bare free (bare.above_class rfl known)
  have upper := first.get_self
  have named : cls.name = "[Q" := links.name.trans bare.name
  have fourth := first.nextId_eq
  have lower := second.get_self
  rw [third] at upper own
  rw [fourth, size] at lower
  rw [tangled]
  refine ⟨array, cls, made, ?_, named, ?_, ?_, ?_, lower, ?_, ?_⟩
  · exact (second.get (first.has_iff.mpr (Nat.le_of_eq size.symm))).trans upper
  · rw [Class.isArray, links.array]
    rfl
  · rw [Class.isInterface, links.flags, bare.flags]
    decide
  · rw [links.superclass, third, Option.map_some, Option.map_some, upper, own]
  · exact second.has_iff.mpr (Nat.le_of_eq (first.size_eq.trans (congrArg (· + 1) size)).symm)
  · exact (second.find?_of_ne (named ▸ by decide)).trans
      ((first.find?_of_ne (called ▸ by decide)).trans roots.object.1)

/-- The interface is linked from a file of its name. -/
theorem sorts_of_serves_tangled :
    tangled.Serves (fun _ => True) rootPath ∧ tangled.Has ⟨4⟩ ∧
      ∃ file, (tangled.get ⟨4⟩).IsOf file ∧ ¬file.IsOrdinary := by
  obtain ⟨array, cls, -, -, named, ordinary, -, -, lower, known, -⟩ := exists_tangled
  have sorts := sorts_of_serves serves_tangled ⟨4⟩ known
  rw [lower, named, ordinary] at sorts
  rcases sorts.2.1 rfl with isArray | ⟨file, -, linked, strange⟩
  · cases isArray
  · exact ⟨serves_tangled, known, file, lower ▸ linked, strange⟩

/-- So of no class does the name tell what it is: an interface with the name of an array class
is none, and has an array class above it in place of the root. -/
theorem tangled_sorts :
    tangled.Serves (fun _ => True) rootPath ∧ tangled.Has ⟨4⟩ ∧
      ¬((tangled.get ⟨4⟩).isArray = true ↔
        ArrayName.isArrayName (tangled.get ⟨4⟩).name = true) ∧
      ((tangled.get ⟨4⟩).isArray = false ∧ ⟨3⟩ ∈ tangled.superChain ⟨4⟩ ∧
        (tangled.get ⟨3⟩).isArray = true) ∧
      ((tangled.get ⟨4⟩).isInterface = true ∧ (tangled.get ⟨4⟩).superclass = some ⟨3⟩ ∧
        tangled.find? objectName = some ⟨0⟩) := by
  obtain ⟨array, cls, made, upper, named, ordinary, interface, above, lower, known, object⟩ :=
    exists_tangled
  have found : tangled.superclass? ⟨4⟩ = some ⟨3⟩ := by
    rw [superclass?, lower, above]
    rfl
  rw [lower, upper, named, ordinary, superChain, found]
  refine ⟨serves_tangled, known, fun same => Bool.false_ne_true (same.mpr rfl),
    ⟨rfl, .tail _ ?_, made.array⟩, interface, above, object⟩
  rw [superChain]
  split <;> exact .head _

end Registry

end Jvm
