import Jvm.Proofs.Registry.Linking
import Jvm.Proofs.Registry.Nesting

/-!
# Requests to a registry

A registry is asked for a class by name, for the array class of a component, or to link a
class from bytes. Whatever it has been asked, and whether that succeeded or failed at any
depth, its classes stand under their own ids and names, above what is linked from them;
and a request changes no class that was there. Of classes that need each other none is ever
linked.
-/

namespace Jvm

open ClassTable Linking

/-! ## Consistent tables -/

/-- Whether a class knows its id and is linked from classes before it. Only the root has no
superclass. -/
structure Class.StandsAt (id : ClassId) (cls : Class) : Prop where
  own : cls.id = id
  superclass : ∀ above, cls.superclass = some above → above.index < id.index
  interfaces : ∀ iface ∈ cls.interfaces, iface.index < id.index
  component : ∀ array component, cls.array = some array → array.component = some component →
    component.index < id.index
  root : cls.superclass = none → cls.name = objectName

/-- Whether the classes of a table stand under their ids and are found by their names, and
by no other. -/
structure ClassTable.Consistent (table : ClassTable) : Prop where
  classes : ∀ id, table.Has id → (table.get id).StandsAt id
  names : ∀ name id, table.find? name = some id ↔ table.Has id ∧ (table.get id).name = name

theorem ClassTable.find?_empty (name : String) : find? {} name = none := by
  simp [find?]

namespace ClassTable

/-- Every chain of superclasses ends at the root. -/
theorem superChain_ends_of_stands {table : ClassTable}
    (stands : ∀ id, table.Has id → (table.get id).StandsAt id) (id : ClassId)
    (known : table.Has id) :
    ∃ root, (table.superChain id).getLast? = some root ∧ table.Has root ∧
      (table.get root).superclass = none ∧ (table.get root).name = objectName := by
  rw [superChain]
  split
  next top =>
      have stands := stands id known
      have bare : (table.get id).superclass = none := by
        cases above : (table.get id).superclass with
        | none => rfl
        | some other =>
            have below := stands.superclass other above
            simp [superclass?, above] at top
            exact absurd below (Nat.not_lt.mpr top)
      exact ⟨id, rfl, known, bare, stands.root bare⟩
  next above found =>
      have below := index_lt_of_superclass? found
      obtain ⟨root, last, ended⟩ :=
        superChain_ends_of_stands stands above (Nat.lt_trans below known)
      refine ⟨root, ?_, ended⟩
      rw [List.getLast?_cons, last]
      rfl
termination_by id.index

end ClassTable

namespace ClassTable.Consistent

variable {table : ClassTable}

theorem empty : ClassTable.Consistent {} where
  classes _ known := absurd known (Nat.not_lt_zero _)
  names name id := by
    rw [find?_empty]
    constructor
    · exact nofun
    · intro known
      exact absurd known.1 (Nat.not_lt_zero _)

theorem named (consistent : table.Consistent) : Named table :=
  fun name id found => ((consistent.names name id).mp found).1

/-- No name is registered twice. -/
theorem eq_of_name (consistent : table.Consistent) {first second : ClassId}
    (known : table.Has first) (other : table.Has second)
    (same : (table.get first).name = (table.get second).name) : first = second := by
  have left := (consistent.names _ _).mpr ⟨known, same⟩
  have right := (consistent.names _ _).mpr ⟨other, rfl⟩
  exact Option.some.inj (left.symm.trans right)

theorem register (consistent : table.Consistent) {cls : Class} (stands : cls.StandsAt table.nextId)
    (unnamed : table.find? cls.name = none) : (table.register cls).Consistent where
  classes := forall_register (fun id cls => cls.StandsAt id) consistent.classes stands
  names name id := by
    have here : (table.register cls).Has table.nextId := by
      rw [Has, size_register]
      exact Nat.lt_succ_self _
    rw [find?_register]
    constructor
    · intro found
      split at found
      · next same =>
        cases found
        exact ⟨here, by rw [get_register_nextId, same]⟩
      · obtain ⟨known, same⟩ := (consistent.names name id).mp found
        refine ⟨(growsTo_register table cls).has known, ?_⟩
        rw [get_register_of_has table cls known, same]
    · rintro ⟨known, same⟩
      rcases has_register table cls known with before | rfl
      · rw [get_register_of_has table cls before] at same
        have found := (consistent.names name id).mpr ⟨before, same⟩
        rw [if_neg]
        · exact found
        · rintro rfl
          cases unnamed.symm.trans found
      · rw [get_register_nextId] at same
        rw [if_pos same]

theorem superChain_ends (consistent : table.Consistent) (id : ClassId) (known : table.Has id) :
    ∃ root, (table.superChain id).getLast? = some root ∧ table.Has root ∧
      (table.get root).superclass = none ∧ (table.get root).name = objectName :=
  superChain_ends_of_stands consistent.classes id known

end ClassTable.Consistent

/-! ## Registrations -/

namespace Linking

variable {source : ClassFile → Prop} {linking : List String} {before after : ClassTable}

/-- A registration keeps a table consistent. -/
theorem Registers.consistent (registers : Registers source linking before after)
    (consistent : before.Consistent) : after.Consistent := by
  have known {name : String} {id : ClassId} (found : before.find? name = some id) :
      id.index < before.nextId.index := consistent.named name id found
  cases registers with
  | @file file superclass interfaces cls _ _ unnamed above linked =>
      have links := links_of_link linked
      refine consistent.register ?_ (links.name ▸ unnamed)
      constructor
      · exact links.id
      · intro other same
        rw [links.superclass, Option.map_map, Option.map_eq_some_iff] at same
        obtain ⟨id, declared, rfl⟩ := same
        have here := above.has consistent.named declared
        show (before.get id).id.index < _
        rw [(consistent.classes id here).own]
        exact here
      · intro iface member
        rw [links.interfaces] at member
        exact (above.has_interface consistent.named member).1
      · intro array component same
        rw [links.array] at same
        cases same
      · intro missing
        rw [links.name]
        cases declared : file.superclass with
        | none => exact (above.root declared).2
        | some name =>
            have ⟨id, linked, _⟩ := above.nearest name declared
            rw [links.superclass, linked] at missing
            cases missing
  | @array name kind component object cloneable serializable _ unnamed made root first second =>
      refine consistent.register ?_ unnamed
      constructor
      · rfl
      · rintro above ⟨⟩
        exact known root
      · intro iface member
        have member : iface = cloneable ∨ iface = serializable := by
          simpa [Class.ofArray] using member
        rcases member with rfl | rfl
        · exact known first
        · exact known second
      · rintro array part ⟨⟩ same
        cases made with
        | primitive => cases same
        | component _ found =>
            cases same
            exact known found
      · exact nofun

theorem Extends.consistent (extended : Extends source linking before after)
    (consistent : before.Consistent) : after.Consistent := by
  induction extended with
  | refl => exact consistent
  | tail _ registers ih => exact registers.consistent ih

end Linking

/-! ## Requests -/

/-- What a registry is asked for. -/
inductive Request where
  | load (name : String)
  | arrayOf (component : ClassId)
  | define (bytes : Array UInt8)

namespace Request

/-- The class that a request is about. -/
def name? (table : ClassTable) : Request → Option String
  | .load name => some name
  | .arrayOf component =>
    some (ArrayName.ofComponent (table.get component).name (table.get component).isArray)
  | .define bytes => (ClassFile.parse bytes).toOption.map (·.name)

/-- Whether a request names a component that is there, or gives a file that may be linked
past the class path. -/
def Accepted (defines : ClassFile → Prop) (table : ClassTable) : Request → Prop
  | .load _ => True
  | .arrayOf component => table.Has component
  | .define bytes => ∀ file, ClassFile.parse bytes = .ok file → defines file

/-- What a request does to the class table. -/
def steps (path : ClassPath) : Request → Linking ClassId
  | .load name => Linking.load path [] name
  | .arrayOf component => Linking.arrayOf path component
  | .define bytes => Linking.defineClass path bytes

/-- What it does with loads nested to a depth. -/
def nested (path : ClassPath) (depth : Nat) : Request → Nested ClassId
  | .load name => Nested.load path depth name
  | .arrayOf component => Nested.arrayOf path depth component
  | .define bytes => Nested.defineClass path depth bytes

theorem carries (request : Request) (path : ClassPath) (table : ClassTable) :
    Nested.Carries [] (request.nested path) (request.steps path) table := by
  cases request with
  | load name => exact Nested.carries_load path [] name table
  | arrayOf component => exact Nested.carries_arrayOf path component table
  | define bytes => exact Nested.carries_defineClass path bytes table

end Request

namespace Registry

/-- Answers a request. -/
def answer (registry : Registry) : Request → Except LoadError ClassId × Registry
  | .load name => registry.load name
  | .arrayOf component => registry.arrayOf component
  | .define bytes => registry.defineClass bytes

/-- Whether a registry has come about by requests to an empty one. -/
def Serves (defines : ClassFile → Prop) (path : ClassPath) : Registry → Prop :=
  Relation.ReflTransGen
    (fun before after => ∃ request : Request,
      request.Accepted defines before.toClassTable ∧ after = (before.answer request).2)
    (ofPath path)

theorem closed_answer {registry : Registry} (closed : registry.Closed) (request : Request) :
    (registry.answer request).2.Closed := by
  cases request with
  | load name => exact (links_load closed name).closed
  | arrayOf component => exact (links_arrayOf closed component).closed
  | define bytes => exact (links_defineClass closed bytes).closed

theorem prefixes_answer (registry : Registry) (request : Request) :
    registry.Prefixes (registry.answer request).2.toClassTable := by
  cases request with
  | load name => exact (registry.prefixes_load name).1
  | arrayOf component => exact registry.prefixes_arrayOf component
  | define bytes => exact registry.prefixes_defineClass bytes

/-- Whatever it is asked, a registry holds no id of a class that it does not have. -/
theorem Serves.closed {registry : Registry} {defines : ClassFile → Prop} {path : ClassPath}
    (serves : registry.Serves defines path) : registry.Closed := by
  induction serves with
  | refl => exact closed_ofPath path
  | tail _ step ih =>
      obtain ⟨request, -, rfl⟩ := step
      exact closed_answer ih request

end Registry

/-! ## Answers -/

/-- Whether a class file is of a class that is no array's. -/
def ClassFile.IsOrdinary (file : ClassFile) : Prop := ArrayName.isArrayName file.name = false

section

variable (path : ClassPath) (defines : ClassFile → Prop) {table : ClassTable}

/-- Whether a file may be linked: it is on the class path or comes with a request. -/
def ClassPath.Offers (file : ClassFile) : Prop := path.Provides file ∨ defines file

/-- How steps about a name end: registration by registration, with the class known if they
return and its name as it was if they throw. -/
def Request.Ends (step : Linking ClassId) (name? : Option String) (table : ClassTable) : Prop :=
  Jvm.Ends step table
    (fun id after => Extends (path.Offers defines) [] table after ∧
      ∃ name ∈ name?, after.find? name = some id)
    fun _ after => Extends (path.Offers defines) [] table after ∧
      ∀ name ∈ name?, after.find? name = table.find? name

variable {path defines}

theorem Request.ends_load (name : String) (named : Named table) :
    Request.Ends path defines (Linking.load path [] name) (some name) table := by
  refine (loads_load path [] name table named).mono ?_ ?_
  · rintro id after ⟨obtains, found⟩
    exact ⟨Extends.weaken obtains.extends (fun _ => .inl) (List.Subset.refl _), name, rfl, found⟩
  · rintro error after ⟨extended, failed⟩
    refine ⟨Extends.weaken extended (fun _ => .inl) (List.Subset.refl _), ?_⟩
    rintro other ⟨⟩
    cases before : table.find? name with
    | none => exact failed
    | some id => exact Extends.find? extended before

theorem Request.ends_define (ordinary : ∀ file, defines file → file.IsOrdinary)
    {file : ClassFile} (defined : defines file) (named : Named table)
    (unnamed : table.find? file.name = none) :
    Request.Ends path defines (Linking.define path [file.name] file) (some file.name) table := by
  have still {after : ClassTable} (extended : Extends path.Provides [file.name] table after) :
      Extends (path.Offers defines) [] table after ∧ after.find? file.name = none :=
    ⟨Extends.weaken extended (fun _ => .inl) (List.nil_subset _),
      unnamed_of_linking extended (ordinary file defined) List.mem_cons_self unnamed⟩
  refine (Linking.ends_define path [file.name] file table named).mono ?_ ?_
  · rintro id after ⟨middle, rfl, extended, superclass, interfaces, cls, above, linked, rfl⟩
    have ⟨extended, unnamed⟩ := still extended
    refine ⟨.tail extended (.file (.inr defined) List.not_mem_nil unnamed above linked), ?_⟩
    refine ⟨file.name, rfl, ?_⟩
    rw [← (links_of_link linked).name]
    exact find?_register_self middle cls
  · intro error after extended
    have ⟨extended, unnamed'⟩ := still extended
    refine ⟨extended, ?_⟩
    rintro name ⟨⟩
    exact unnamed'.trans unnamed.symm

/-- Every request is answered registration by registration. -/
theorem Request.ends_steps (ordinary : ∀ file, defines file → file.IsOrdinary)
    (request : Request) (accepted : request.Accepted defines table) (named : Named table) :
    Request.Ends path defines (request.steps path) (request.name? table) table := by
  cases request with
  | load name => exact ends_load name named
  | arrayOf component =>
      rw [Request.Ends, steps, Linking.arrayOf, ends_bind, ends_get]
      exact ends_load _ named
  | define bytes =>
      cases parsed : ClassFile.parse bytes with
      | error error =>
          rw [Request.Ends, steps, Linking.defineClass, parsed, name?, parsed, ends_bind]
          exact ends_throw.mpr ⟨.refl, by rintro _ ⟨⟩⟩
      | ok file =>
          rw [Request.Ends, steps, Linking.defineClass, parsed, name?, parsed, ends_bind]
          refine ends_pure.mpr ?_
          rw [ends_bind, ends_get]
          split
          next => exact ends_throw.mpr ⟨.refl, fun _ _ => rfl⟩
          next unnamed =>
              exact Request.ends_define ordinary (accepted file parsed) named unnamed

/-- The answer to a request is what its steps give, on a registry that has stayed the
same but for its classes. -/
theorem Registry.answer_eq (registry : Registry) (request : Request) :
    registry.answer request = registry.link request.steps := by
  cases request <;> rfl

theorem Registry.extends_answer
    (ordinary : ∀ file, defines file → file.IsOrdinary)
    {registry : Registry} (named : Named registry.toClassTable) {request : Request}
    (accepted : request.Accepted defines registry.toClassTable) :
    (registry.answer request).2.path = registry.path ∧
      Extends (registry.path.Offers defines) [] registry.toClassTable
        (registry.answer request).2.toClassTable := by
  have ends : Request.Ends registry.path defines _ _ _ :=
    Request.ends_steps ordinary request accepted named
  rw [answer_eq, link, EStateM.run]
  cases ran : request.steps registry.path registry.toClassTable with
  | ok id after => exact ⟨rfl, (ends_of_ok ran ends).1⟩
  | error error after => exact ⟨rfl, (ends_of_error ran ends).1⟩

/-- What requests have registered comes from the class path or from the files they gave. -/
theorem Registry.Serves.extends
    (ordinary : ∀ file, defines file → file.IsOrdinary)
    {registry : Registry} (serves : registry.Serves defines path) :
    registry.path = path ∧ Extends (path.Offers defines) [] {} registry.toClassTable := by
  induction serves with
  | refl => exact ⟨rfl, .refl⟩
  | tail _ step ih =>
      obtain ⟨request, accepted, rfl⟩ := step
      obtain ⟨same, extended⟩ := ih
      have named := (extended.consistent .empty).named
      have ⟨kept, further⟩ := extends_answer ordinary named accepted
      rw [same] at kept further
      exact ⟨kept, extended.trans further⟩

end

/-- How a request ends: the classes that were there are as they were, a class is given for
the name that was asked for, and a failure registers none for it. -/
structure Registry.Answers (before : Registry) (request : Request)
    (result : Except LoadError ClassId × Registry) : Prop where
  consistent : result.2.Consistent
  classes : ∀ id, before.Has id → result.2.Has id ∧ result.2.get id = before.get id
  names : ∀ name id, before.find? name = some id → result.2.find? name = some id
  linked : ∀ id, result.1 = .ok id →
    ∃ name ∈ request.name? before.toClassTable, result.2.find? name = some id
  failed : ∀ error, result.1 = .error error →
    ∀ name ∈ request.name? before.toClassTable, result.2.find? name = before.find? name

/-- The same with the names being linked, which are what they were. -/
def Nested.ended (linking : List String) (result : Except LoadError ClassId × Registry) :
    EStateM.Result (Option LoadError) Progress ClassId :=
  match result.1 with
  | .ok id => .ok id ⟨result.2.toClassTable, linking⟩
  | .error error => .error (some error) ⟨result.2.toClassTable, linking⟩

namespace Registry

variable {path : ClassPath} {registry : Registry} {request : Request}

theorem answers_of_accepted (consistent : registry.Consistent)
    (accepted : request.Accepted ClassFile.IsOrdinary registry.toClassTable) :
    registry.Answers request (registry.answer request) := by
  have ends : Request.Ends registry.path ClassFile.IsOrdinary _ _ _ :=
    Request.ends_steps (fun _ ordinary => ordinary) request accepted consistent.named
  have grown {after : ClassTable}
      (extended : Extends (registry.path.Offers ClassFile.IsOrdinary) []
        registry.toClassTable after) : ∀ id, registry.Has id → after.Has id ∧
        after.get id = registry.get id :=
    fun id known => ⟨Nat.lt_of_lt_of_le known extended.size_le, extended.get known⟩
  rw [answer_eq, link, EStateM.run]
  cases ran : request.steps registry.path registry.toClassTable with
  | ok id after =>
      obtain ⟨extended, linked⟩ := ends_of_ok ran ends
      refine ⟨extended.consistent consistent, grown extended, fun _ _ => extended.find?, ?_, ?_⟩
      · rintro other ⟨⟩
        exact linked
      · rintro error ⟨⟩
  | error error after =>
      obtain ⟨extended, failed⟩ := ends_of_error ran ends
      refine ⟨extended.consistent consistent, grown extended, fun _ _ => extended.find?, ?_,
        fun _ _ => failed⟩
      rintro id ⟨⟩

theorem nested_answer (registry : Registry) (request : Request) : ∃ depth, ∀ more, depth ≤ more →
    request.nested registry.path more ⟨registry.toClassTable, []⟩ =
      Nested.ended [] (registry.answer request) := by
  obtain ⟨depth, carries⟩ := request.carries registry.path registry.toClassTable
  refine ⟨depth, fun more deep => (carries more deep).trans ?_⟩
  rw [answer_eq, link, EStateM.run, Nested.ofLinking]
  cases request.steps registry.path registry.toClassTable <;> rfl

end Registry

end Jvm

/-!
## Cycles on a class path

A class needs its superclass and its interfaces, an array class its component and the
ancestors of all arrays. A class is registered behind all that it needs, so of classes
that each need another of them none is ever registered, and to load one fails. It does
fail: loading ends on every class path.
-/

namespace Jvm

open ClassTable Linking

/-- Whether linking the class of a name needs another class, by the files of a class path. -/
inductive ClassPath.Needs (path : ClassPath) (name : String) : String → Prop
  | file {file : ClassFile} {other : String} (ordinary : ArrayName.isArrayName name = false)
      (loads : path.load name = .ok file) (needs : file.Needs other) : Needs path name other
  | array {other : String} (array : ArrayName.isArrayName name = true)
      (needs : ArrayName.Needs name other) : Needs path name other

/-- Whether what a class needs leads back to the class. -/
def ClassPath.OnCycle (path : ClassPath) (name : String) : Prop :=
  Relation.TransGen path.Needs name name

/-- The next class on a cycle is on a cycle. -/
theorem ClassPath.OnCycle.exists_needs {path : ClassPath} {name : String}
    (cycle : path.OnCycle name) : ∃ other, path.Needs name other ∧ path.OnCycle other := by
  obtain ⟨other, needs, back⟩ := Relation.TransGen.head'_iff.mp cycle
  exact ⟨other, needs, Relation.TransGen.tail' back needs⟩

namespace Linking

variable {path : ClassPath} {defines : ClassFile → Prop} {before after : ClassTable}

/-- What a class needs is known before the class is. -/
theorem Registers.exists_of_needs (ordinary : ∀ file, defines file → file.IsOrdinary)
    (registers : Registers (path.Offers defines) [] before after) {name other : String}
    (unnamed : before.find? name = none) {id : ClassId} (found : after.find? name = some id)
    (undefined : ∀ file, defines file → file.name ≠ name) (needs : path.Needs name other) :
    ∃ id, before.find? other = some id := by
  cases needs with
  | array array needs =>
      refine registers.exists_of_array ?_ array unnamed found needs
      rintro file (provided | defined)
      · exact provided.ordinary
      · exact ordinary file defined
  | file plain loads needs =>
      cases registers with
      | file provided _ _ above linked =>
          rw [find?_register, (links_of_link linked).name] at found
          split at found
          next same =>
              subst same
              rcases provided with provided | defined
              · cases provided.loads.symm.trans loads
                exact above.exists_of_needs needs
              · exact absurd rfl (undefined _ defined)
          next => cases unnamed.symm.trans found
      | array array =>
          rw [find?_register] at found
          split at found
          next same =>
              cases same
              cases plain.symm.trans array
          next => cases unnamed.symm.trans found

/-- Of classes on a cycle none is registered while none is. -/
theorem Extends.find?_of_onCycle (ordinary : ∀ file, defines file → file.IsOrdinary)
    (undefined : ∀ file, defines file → ¬path.OnCycle file.name)
    (extended : Extends (path.Offers defines) [] before after)
    (unknown : ∀ name, path.OnCycle name → before.find? name = none) (name : String)
    (cycle : path.OnCycle name) : after.find? name = none := by
  induction extended generalizing name with
  | refl => exact unknown name cycle
  | tail _ registers ih =>
      obtain ⟨other, needs, further⟩ := cycle.exists_needs
      refine Option.eq_none_iff_forall_ne_some.mpr fun id found => ?_
      have apart : ∀ file, defines file → file.name ≠ name := by
        rintro file defined rfl
        exact undefined file defined cycle
      obtain ⟨id, known⟩ := registers.exists_of_needs ordinary (ih name cycle) found apart needs
      cases (ih other further).symm.trans known

end Linking

namespace Registry

variable {path : ClassPath} {registry : Registry}

/-- Whether a file may be linked past a class path: it is of a class that is no array's and
on no cycle. -/
def Past (path : ClassPath) (file : ClassFile) : Prop :=
  file.IsOrdinary ∧ ¬path.OnCycle file.name

theorem find?_of_onCycle (serves : registry.Serves (Past path) path) {name : String}
    (cycle : path.OnCycle name) : registry.find? name = none := by
  obtain ⟨-, extended⟩ := Serves.extends (fun _ past => past.1) serves
  exact extended.find?_of_onCycle (fun _ past => past.1) (fun _ past => past.2)
    (fun name _ => find?_empty name) name cycle

/-- Loading ends on every class path: for every name, table and names being linked there is
a depth from which on loads that nest so deep give what loading gives. Whatever a registry
has been asked before, no class on a cycle is registered, and to load one fails. -/
theorem load_ends (path : ClassPath) :
    (∀ linking table name, ∃ depth, ∀ more, depth ≤ more →
      Nested.load path more name ⟨table, linking⟩ =
        Nested.ofLinking (Linking.load path linking name) ⟨table, linking⟩) ∧
      ∀ name, path.OnCycle name → ∀ registry : Registry, registry.Serves (Past path) path →
        registry.find? name = none ∧ (∃ error, (registry.load name).1 = .error error) ∧
          (registry.load name).2.find? name = none := by
  refine ⟨fun linking table name => Nested.carries_load path linking name table, ?_⟩
  intro name cycle registry serves
  have after : (registry.load name).2.find? name = none :=
    find?_of_onCycle (serves.tail ⟨.load name, trivial, rfl⟩) cycle
  refine ⟨find?_of_onCycle serves cycle, ?_, after⟩
  cases loaded : (registry.load name).1 with
  | error error => exact ⟨error, rfl⟩
  | ok id =>
      have consistent := (Serves.extends (fun _ past => past.1) serves).2.consistent .empty
      have answers : registry.Answers (.load name) (registry.load name) :=
        answers_of_accepted consistent trivial
      obtain ⟨other, ⟨⟩, found⟩ := answers.linked id loaded
      cases after.symm.trans found

/-- A class path whose only class is below the arrays of its own. -/
def loopPath : ClassPath :=
  ⟨[("A", #[0xCA, 0xFE, 0xBA, 0xBE, 0, 0, 0, 52, 0, 5, 1, 0, 1, 0x41, 7, 0, 1,
    1, 0, 4, 0x5B, 0x4C, 0x41, 0x3B, 7, 0, 3, 0, 0x21, 0, 2, 0, 4, 0, 0, 0, 0, 0, 0, 0, 0])]⟩

theorem onCycle_loopPath : loopPath.OnCycle "A" := by
  have declared : (loopPath.load "A").toOption.bind (·.superclass) = some "[LA;" := by
    decide +kernel
  refine Relation.TransGen.head (b := "[LA;") ?_ (.single (.array rfl (.component rfl)))
  cases loads : loopPath.load "A" with
  | error error => cases loads ▸ declared
  | ok file =>
      refine .file rfl loads (.inl ?_)
      rw [loads] at declared
      exact declared

theorem load_ends_loopPath :
    loopPath.OnCycle "A" ∧ ∃ error, ((ofPath loopPath).load "A").1 = .error error :=
  ⟨onCycle_loopPath, ((load_ends loopPath).2 "A" onCycle_loopPath _ .refl).2.1⟩

end Registry

end Jvm
