import Jvm.Bytes
import Jvm.Proofs.Registry.Requests

/-!
# Linking below known classes

A class that is known is not loaded again, and a class whose ancestors are known is linked
without loading any: it is registered at once. So of an array class, whose component may be
of any kind, the registry only needs to know the component and what all arrays are below.
What a request loads before it fails stays linked, and nothing else changes.
-/

namespace Jvm

open ClassTable

namespace Linking

variable {path : ClassPath} {linking : List String} {table : ClassTable}

/-! ## Classes from files -/

theorem loadClass_of_find? {name : String} {id : ClassId} (found : table.find? name = some id) :
    loadClass path linking name table = .ok id table := by
  rw [loadClass]
  refine (bind_of_ok rfl).trans ?_
  simp only [found]
  rfl

theorem load_of_find? {name : String} {id : ClassId} (found : table.find? name = some id) :
    load path linking name table = .ok id table := by
  rw [load]
  split
  · refine (bind_of_ok rfl).trans ?_
    simp only [found]
    rfl
  · exact loadClass_of_find? found

variable {file : ClassFile} {superclass : Option ClassId} {interfaces : List ClassId}

theorem loadSuperclass_of_above (above : file.Above table superclass interfaces) :
    loadSuperclass path linking file table = .ok superclass table := by
  rw [loadSuperclass]
  cases declared : file.superclass with
  | some name =>
      obtain ⟨id, rfl, found, sort⟩ := above.nearest name declared
      refine (bind_of_ok (load_of_find? found)).trans ((bind_of_ok rfl).trans ?_)
      simp only [sort]
      rfl
  | none =>
      obtain ⟨rfl, root⟩ := above.root declared
      rw [root]
      rfl

theorem loadInterfaces_of_knows (name : String) {names : List String} {ids : List ClassId}
    (known : List.Forall₂ (table.Knows true) names ids) :
    loadInterfaces path linking name names table = .ok ids table := by
  induction known with
  | nil =>
      rw [loadInterfaces]
      rfl
  | cons here _ ih =>
      rw [loadInterfaces]
      refine (bind_of_ok (load_of_find? here.1)).trans ((bind_of_ok rfl).trans ?_)
      simp only [here.2]
      exact (bind_of_ok ih).trans rfl

/-- A class whose ancestors are known is registered, whatever it is called. -/
theorem define_of_above (above : file.Above table superclass interfaces) {cls : Class}
    (linked : Class.link table.nextId file (superclass.map table.get) interfaces = .ok cls) :
    define path linking file table = .ok table.nextId (table.register cls) := by
  rw [define]
  refine (bind_of_ok (loadSuperclass_of_above above)).trans ?_
  refine (bind_of_ok (loadInterfaces_of_knows file.name above.declared)).trans ?_
  refine (bind_of_ok rfl).trans ?_
  rw [linked, ← (links_of_link linked).id]
  rfl

theorem load_of_provides (provided : path.Provides file) (unnamed : table.find? file.name = none)
    (fresh : file.name ∉ linking) (above : file.Above table superclass interfaces) {cls : Class}
    (linked : Class.link table.nextId file (superclass.map table.get) interfaces = .ok cls) :
    load path linking file.name table = .ok table.nextId (table.register cls) := by
  have loads := provided.loads
  apply eq_of_ends
  rw [load, dif_neg (Bool.eq_false_iff.mp provided.ordinary), loadClass, ends_bind, ends_get]
  split
  next id found => cases unnamed.symm.trans found
  rw [if_neg fresh]
  rw [ClassPath.load] at loads
  split
  next missing =>
      rw [missing] at loads
      cases loads
  next bytes found =>
      simp only [found] at loads
      rw [loads]
      exact Ends.of_ok (define_of_above above linked) ⟨rfl, rfl⟩

/-! ## Array classes -/

theorem load_array_of_made {name : String} (array : ArrayName.isArrayName name = true)
    (unnamed : table.find? name = none) {kind : Kind} {component : Option ClassId}
    (made : ArrayName.Made table name kind component) {object cloneable serializable : ClassId}
    (root : table.find? objectName = some object)
    (first : table.find? cloneableName = some cloneable)
    (second : table.find? serializableName = some serializable) :
    load path linking name table = .ok table.nextId (table.register
      (Class.ofArray table.nextId name kind component object [cloneable, serializable])) := by
  have last : (do
      let object ← loadClass path linking objectName
      let cloneable ← loadClass path linking cloneableName
      let serializable ← loadClass path linking serializableName
      registerArray name kind component object [cloneable, serializable]) table =
      .ok table.nextId (table.register
        (Class.ofArray table.nextId name kind component object [cloneable, serializable])) := by
    refine (bind_of_ok (loadClass_of_find? root)).trans ?_
    refine (bind_of_ok (loadClass_of_find? first)).trans ?_
    exact (bind_of_ok (loadClass_of_find? second)).trans rfl
  apply eq_of_ends
  rw [load, dif_pos array, ends_bind, ends_get]
  split
  next id found => cases unnamed.symm.trans found
  cases made with
  | primitive found =>
      split
      next other => cases found.symm.trans other
      next kind same =>
          cases found.symm.trans same
          exact Ends.of_ok last ⟨rfl, rfl⟩
      next inner other => cases found.symm.trans other
  | component found known =>
      split
      next other => cases found.symm.trans other
      next kind other => cases found.symm.trans other
      next inner same =>
          cases found.symm.trans same
          exact Ends.of_ok ((bind_of_ok (load_of_find? known)).trans last) ⟨rfl, rfl⟩

end Linking

/-! ## Files without members -/

/-- Whether a class file has at most a superclass, and no members. -/
structure ClassFile.IsBare (flags : UInt16) (name : String) (superclass : Option String)
    (file : ClassFile) : Prop where
  flags : file.flags = flags
  name : file.name = name
  superclass : file.superclass = superclass
  interfaces : file.interfaces = []
  fields : file.fields = #[]
  methods : file.methods = #[]

/-- The bytes of such a file. -/
def ClassFile.bare (flags : UInt16) (name : String) (superclass : Option String) : Array UInt8 :=
  let entry (text : String) (number : UInt16) : List UInt8 :=
    1 :: Bytes.ofShort (UInt16.ofNat (Text.utf8 text).length) ++ Text.utf8 text ++
      7 :: Bytes.ofShort number
  let above := superclass.elim [] fun text => entry text 3
  (Bytes.ofWord 0xCAFEBABE ++ Bytes.ofShort 0 ++ Bytes.ofShort 52 ++
    Bytes.ofShort (if superclass.isSome then 5 else 3) ++ entry name 1 ++ above ++
    Bytes.ofShort flags ++ Bytes.ofShort 2 ++ Bytes.ofShort (if superclass.isSome then 4 else 0) ++
    List.replicate 8 0).toArray

namespace ClassFile

variable {flags : UInt16} {name : String} {superclass : Option String} {file : ClassFile}

theorem exists_bare {read : Except LoadError ClassFile}
    (shown : read.toOption.map (fun file => (file.flags, file.name, file.superclass,
      file.interfaces, file.fields.size + file.methods.size)) =
        some (flags, name, superclass, [], 0)) :
    ∃ file, read = .ok file ∧ file.IsBare flags name superclass := by
  cases read with
  | error error => cases shown
  | ok file =>
      injection shown with same
      injection same with flags same
      injection same with name same
      injection same with superclass same
      injection same with interfaces members
      exact ⟨file, rfl, flags, name, superclass, interfaces,
        Array.eq_empty_of_size_eq_zero (Nat.eq_zero_of_add_eq_zero_right members),
        Array.eq_empty_of_size_eq_zero (Nat.eq_zero_of_add_eq_zero_left members)⟩

namespace IsBare

variable {table : ClassTable} (bare : file.IsBare flags name superclass)

include bare

/-- The root is below nothing. -/
theorem above_root (root : name = objectName) (bottom : superclass = none) :
    file.Above table none [] where
  nearest _ declared := by cases (bare.superclass.trans bottom).symm.trans declared
  root _ := ⟨rfl, bare.name.trans root⟩
  declared := bare.interfaces ▸ .nil

/-- Any other class is below the class that it names. -/
theorem above_class {super : String} {id : ClassId} (named : superclass = some super)
    (known : table.Knows false super id) : file.Above table (some id) [] where
  nearest name declared := by
    cases (bare.superclass.trans named).symm.trans declared
    exact ⟨id, rfl, known⟩
  root missing := by cases (bare.superclass.trans named).symm.trans missing
  declared := bare.interfaces ▸ .nil

theorem exists_link (id : ClassId) (above : Option Class) (interfaces : List ClassId) :
    ∃ cls, Class.link id file above interfaces = .ok cls := by
  simp only [Class.link, bare.fields, bare.methods]
  exact ⟨_, rfl⟩

end IsBare

end ClassFile

namespace ClassTable

variable {table : ClassTable}

/-- Whether a table knows the classes that all arrays are below. -/
structure HasRoots (table : ClassTable) (object cloneable serializable : ClassId) : Prop where
  object : table.Knows false objectName object
  cloneable : table.Knows true cloneableName cloneable
  serializable : table.Knows true serializableName serializable

end ClassTable

namespace Registry

/-! ## Answers that add one class -/

/-- Whether a request is answered with a new class, and with no other one. -/
structure Adds (before : Registry) (request : Request) (cls : Class) : Prop where
  given : (before.answer request).1 = .ok before.nextId
  path : (before.answer request).2.path = before.path
  table : (before.answer request).2.toClassTable = before.register cls

namespace Adds

variable {before : Registry} {request : Request} {cls : Class} (adds : before.Adds request cls)

include adds

theorem knows_self : (before.answer request).2.Knows cls.isInterface cls.name before.nextId := by
  rw [adds.table]
  exact ⟨Linking.find?_register_self before.toClassTable cls, by rw [get_register_nextId]⟩

theorem knows {interface : Bool} {name : String} {id : ClassId} (known : before.Has id)
    (knows : before.Knows interface name id) (apart : cls.name ≠ name) :
    (before.answer request).2.Knows interface name id := by
  rw [adds.table]
  refine ⟨?_, ?_⟩
  · rw [find?_register, if_neg apart]
    exact knows.1
  · rw [get_register_of_has before.toClassTable cls known]
    exact knows.2

theorem find?_of_ne {name : String} (apart : cls.name ≠ name) :
    (before.answer request).2.find? name = before.find? name := by
  rw [adds.table, find?_register, if_neg apart]

theorem size_eq : (before.answer request).2.size = before.size + 1 := by
  rw [adds.table, size_register]

theorem nextId_eq : (before.answer request).2.nextId = ⟨before.size + 1⟩ :=
  congrArg ClassId.mk adds.size_eq

theorem get {id : ClassId} (known : before.Has id) :
    (before.answer request).2.get id = before.get id := by
  rw [adds.table, get_register_of_has before.toClassTable cls known]

theorem get_self : (before.answer request).2.get before.nextId = cls := by
  rw [adds.table, get_register_nextId]

theorem has_iff {id : ClassId} :
    (before.answer request).2.Has id ↔ id.index ≤ before.size := by
  rw [Has, adds.size_eq, Nat.lt_succ_iff]

end Adds

variable {registry : Registry} {flags : UInt16} {name : String} {superclass : Option String}
  {file : ClassFile} {above : Option ClassId}

theorem adds_of_ok {request : Request} {cls : Class}
    (ran : request.steps registry.path registry.toClassTable =
      .ok registry.nextId (registry.register cls)) : registry.Adds request cls := by
  constructor <;> rw [answer_eq, link, EStateM.run, ran]

/-- A file without members is linked once its superclass is known. -/
theorem exists_adds_load (bare : file.IsBare flags name superclass)
    (provided : registry.path.Provides file) (unnamed : registry.find? name = none)
    (below : file.Above registry.toClassTable above []) :
    ∃ cls, Linking.Links registry.nextId file (above.map registry.get) [] cls ∧
      registry.Adds (.load name) cls := by
  obtain ⟨cls, linked⟩ := bare.exists_link registry.nextId (above.map registry.get) []
  cases bare.name
  exact ⟨cls, Linking.links_of_link linked, adds_of_ok
    (Linking.load_of_provides provided unnamed List.not_mem_nil below linked)⟩

/-- A file is linked past the class path once its ancestors are known, -/
theorem adds_define {bytes : Array UInt8} (parsed : ClassFile.parse bytes = .ok file)
    (unnamed : registry.find? file.name = none) {interfaces : List ClassId}
    (below : file.Above registry.toClassTable above interfaces) {cls : Class}
    (linked : Class.link registry.nextId file (above.map registry.get) interfaces = .ok cls) :
    registry.Adds (.define bytes) cls := by
  refine adds_of_ok ?_
  rw [Request.steps, Linking.defineClass, parsed]
  refine (bind_of_ok rfl).trans ((bind_of_ok rfl).trans ?_)
  rw [unnamed]
  exact Linking.define_of_above below linked

/-- and always if it has no members. -/
theorem exists_adds_define {bytes : Array UInt8} (parsed : ClassFile.parse bytes = .ok file)
    (bare : file.IsBare flags name superclass) (unnamed : registry.find? name = none)
    (below : file.Above registry.toClassTable above []) :
    ∃ cls, Linking.Links registry.nextId file (above.map registry.get) [] cls ∧
      registry.Adds (.define bytes) cls := by
  obtain ⟨cls, linked⟩ := bare.exists_link registry.nextId (above.map registry.get) []
  exact ⟨cls, Linking.links_of_link linked,
    adds_define parsed (bare.name ▸ unnamed) below linked⟩

/-- An array class is made up once its component is known and what all arrays are below. -/
theorem adds_array (array : ArrayName.isArrayName name = true) (unnamed : registry.find? name = none)
    {kind : Kind} {component : Option ClassId}
    (made : ArrayName.Made registry.toClassTable name kind component)
    {object cloneable serializable : ClassId}
    (roots : registry.HasRoots object cloneable serializable) :
    registry.Adds (.load name)
      (Class.ofArray registry.nextId name kind component object [cloneable, serializable]) :=
  adds_of_ok (Linking.load_array_of_made array unnamed made roots.object.1 roots.cloneable.1
    roots.serializable.1)

/-! ## A registry with the roots -/

/-- A class path with the classes that all arrays are below, and no others. -/
def rootPath : ClassPath :=
  ⟨[(objectName, ClassFile.bare 0x21 objectName none),
    (cloneableName, ClassFile.bare 0x601 cloneableName (some objectName)),
    (serializableName, ClassFile.bare 0x601 serializableName (some objectName))]⟩

/-- A registry that has loaded them. -/
def rooted : Registry :=
  [objectName, cloneableName, serializableName].foldl
    (fun registry name => (registry.answer (.load name)).2) (ofPath rootPath)

theorem serves_rooted (defines : ClassFile → Prop) : rooted.Serves defines rootPath :=
  .tail (.tail (.tail .refl ⟨.load objectName, trivial, rfl⟩) ⟨.load cloneableName, trivial, rfl⟩)
    ⟨.load serializableName, trivial, rfl⟩

/-- A file of the path is linked below the root. -/
theorem exists_adds_root (registry : Registry) (flags : UInt16) (name : String)
    (path : registry.path = rootPath) (unnamed : registry.find? name = none)
    (ordinary : ArrayName.isArrayName name = false)
    (shown : (rootPath.load name).toOption.map (fun file => (file.flags, file.name, file.superclass,
      file.interfaces, file.fields.size + file.methods.size)) =
        some (flags, name, superclass, [], 0))
    (below : ∀ file : ClassFile, file.IsBare flags name superclass →
      file.Above registry.toClassTable above []) :
    ∃ cls, cls.name = name ∧ cls.isInterface = Access.has flags Access.isInterface ∧
      registry.Adds (.load name) cls := by
  obtain ⟨file, loads, bare⟩ := ClassFile.exists_bare shown
  have provided : registry.path.Provides file :=
    ⟨by rw [path, bare.name, loads], by rw [bare.name, ordinary]⟩
  obtain ⟨cls, links, adds⟩ := exists_adds_load bare provided unnamed (below file bare)
  refine ⟨cls, links.name.trans bare.name, ?_, adds⟩
  rw [Class.isInterface, links.flags, bare.flags]

theorem hasRoots_rooted :
    rooted.path = rootPath ∧ rooted.size = 3 ∧ rooted.HasRoots ⟨0⟩ ⟨1⟩ ⟨2⟩ ∧
      ∀ name, name ∉ [objectName, cloneableName, serializableName] → rooted.find? name = none := by
  obtain ⟨root, rootName, rootSort, first⟩ := exists_adds_root (ofPath rootPath) 0x21 objectName
    rfl (find?_empty objectName) rfl (by decide +kernel) fun _ bare => bare.above_root rfl rfl
  have object := first.knows_self
  rw [rootName, rootSort] at object
  obtain ⟨clone, cloneName, cloneSort, second⟩ := exists_adds_root _ 0x601 cloneableName first.path
    ((first.find?_of_ne (rootName ▸ by decide)).trans (find?_empty _)) rfl (by decide +kernel)
    fun _ bare => bare.above_class rfl object
  have cloneable := second.knows_self
  rw [cloneName, cloneSort] at cloneable
  have object := second.knows (first.has_iff.mpr (Nat.le_refl 0)) object (cloneName ▸ by decide)
  obtain ⟨serial, serialName, serialSort, third⟩ := exists_adds_root _ 0x601 serializableName
    (second.path.trans first.path)
    ((second.find?_of_ne (cloneName ▸ by decide)).trans
      ((first.find?_of_ne (rootName ▸ by decide)).trans (find?_empty _))) rfl (by decide +kernel)
    fun _ bare => bare.above_class rfl object
  have serializable := third.knows_self
  rw [serialName, serialSort] at serializable
  have one : ((ofPath rootPath).answer (.load objectName)).2.nextId = ⟨1⟩ := first.nextId_eq
  have two := second.nextId_eq
  rw [first.size_eq] at two
  have three := third.size_eq
  rw [second.size_eq, first.size_eq] at three
  have object := third.knows (second.has_iff.mpr (Nat.zero_le _)) object (serialName ▸ by decide)
  have cloneable := third.knows (second.has_iff.mpr (Nat.le_refl _)) cloneable
    (serialName ▸ by decide)
  refine ⟨third.path.trans (second.path.trans first.path), three,
    ⟨object, one ▸ cloneable, two ▸ serializable⟩, fun name other => ?_⟩
  have apart : root.name ≠ name ∧ clone.name ≠ name ∧ serial.name ≠ name := by
    rw [rootName, cloneName, serialName]
    simpa [eq_comm] using other
  exact (third.find?_of_ne apart.2.2).trans ((second.find?_of_ne apart.2.1).trans
    ((first.find?_of_ne apart.1).trans (find?_empty name)))

/-! ## Requests that fail halfway -/

/-- After any requests, whether they succeeded or not, the table is consistent, no name is
registered twice and every chain of superclasses ends at the root. Another request keeps
it so, changes no class that was there and does not register what it fails to link; and
the names being linked are none again, however deep its loads have nested. -/
theorem answers_of_serves {path : ClassPath} {request : Request}
    (serves : registry.Serves ClassFile.IsOrdinary path)
    (accepted : request.Accepted ClassFile.IsOrdinary registry.toClassTable) :
    registry.Consistent ∧
      (∀ first second, registry.Has first → registry.Has second →
        (registry.get first).name = (registry.get second).name → first = second) ∧
      (∀ id, registry.Has id → ∃ root, (registry.superChain id).getLast? = some root ∧
        registry.Has root ∧ (registry.get root).superclass = none ∧
        (registry.get root).name = objectName) ∧
      registry.Answers request (registry.answer request) ∧
      ∃ depth, ∀ more, depth ≤ more →
        request.nested path more ⟨registry.toClassTable, []⟩ =
          Nested.ended [] (registry.answer request) := by
  have ⟨same, extended⟩ := Serves.extends (fun _ ordinary => ordinary) serves
  have consistent := extended.consistent .empty
  refine ⟨consistent, fun _ _ => consistent.eq_of_name, consistent.superChain_ends,
    answers_of_accepted consistent accepted, ?_⟩
  rw [← same]
  exact registry.nested_answer request

/-- A registry that has loaded the root alone. -/
def withRoot : Registry := ((ofPath rootPath).answer (.load objectName)).2

/-- The bytes of a class that names an interface as its superclass. -/
def belowInterface : Array UInt8 := ClassFile.bare 0x21 "demo/A" (some cloneableName)

theorem exists_parse_belowInterface : ∃ file, ClassFile.parse belowInterface = .ok file ∧
    file.IsBare 0x21 "demo/A" (some cloneableName) := ClassFile.exists_bare (by decide +kernel)

/-- To define such a class loads the interface, and fails. -/
theorem exists_answer_belowInterface : ∃ (root clone : Class) (error : LoadError),
    withRoot.toClassTable = (ofPath rootPath).toClassTable.register root ∧
      root.name = objectName ∧ clone.name = cloneableName ∧
      (withRoot.answer (.define belowInterface)).1 = .error error ∧
      (withRoot.answer (.define belowInterface)).2.toClassTable = withRoot.register clone := by
  obtain ⟨root, rootName, rootSort, first⟩ := exists_adds_root (ofPath rootPath) 0x21 objectName
    rfl (find?_empty objectName) rfl (by decide +kernel) fun _ bare => bare.above_root rfl rfl
  have object : withRoot.Knows _ _ _ := first.knows_self
  rw [rootName, rootSort] at object
  obtain ⟨iface, loads, above⟩ : ∃ file, rootPath.load cloneableName = .ok file ∧
    file.IsBare 0x601 cloneableName (some objectName) := ClassFile.exists_bare (by decide +kernel)
  have provided : withRoot.path.Provides iface := by
    rw [withRoot, first.path]
    exact ⟨above.name ▸ loads, above.name ▸ rfl⟩
  have unnamed {name : String} (apart : objectName ≠ name) : withRoot.find? name = none :=
    (first.find?_of_ne (rootName ▸ apart)).trans (find?_empty name)
  obtain ⟨clone, linked⟩ := above.exists_link withRoot.nextId
    ((some (ofPath rootPath).nextId).map withRoot.get) []
  have loaded : Linking.load withRoot.path ["demo/A"] cloneableName withRoot.toClassTable =
      .ok withRoot.nextId (withRoot.register clone) := by
    rw [← above.name]
    exact Linking.load_of_provides provided (above.name ▸ unnamed (by decide))
      (by rw [above.name]; decide) (above.above_class rfl object) linked
  have interface : ((withRoot.register clone).get withRoot.nextId).isInterface = true := by
    rw [get_register_nextId, Class.isInterface, (Linking.links_of_link linked).flags, above.flags]
    rfl
  obtain ⟨file, parsed, bare⟩ := exists_parse_belowInterface
  have fails : Linking.loadSuperclass withRoot.path ["demo/A"] file withRoot.toClassTable =
      .error (.verifyFailed (.interfaceAsSuperclass "demo/A" cloneableName))
        (withRoot.register clone) := by
    rw [Linking.loadSuperclass, bare.superclass]
    refine (bind_of_ok loaded).trans ((bind_of_ok rfl).trans ?_)
    rw [interface, bare.name]
    rfl
  have ran : Linking.defineClass withRoot.path belowInterface withRoot.toClassTable =
      .error (.verifyFailed (.interfaceAsSuperclass "demo/A" cloneableName))
        (withRoot.register clone) := by
    rw [Linking.defineClass, parsed]
    refine (bind_of_ok rfl).trans ((bind_of_ok rfl).trans ?_)
    rw [bare.name, unnamed (by decide)]
    simp only [Linking.define, bind, EStateM.bind, fails]
  refine ⟨root, clone, .verifyFailed (.interfaceAsSuperclass "demo/A" cloneableName), first.table,
    rootName, (Linking.links_of_link linked).name.trans above.name, ?_⟩
  rw [answer_eq, link, EStateM.run, Request.steps, ran]
  exact ⟨rfl, rfl⟩

/-- The interface stays where it was loaded, behind the root, and there is no such class. -/
theorem answers_of_serves_halfway :
    withRoot.Serves ClassFile.IsOrdinary rootPath ∧
      (Request.define belowInterface).Accepted ClassFile.IsOrdinary withRoot.toClassTable ∧
      withRoot.Has ⟨0⟩ ∧ ∃ error after, withRoot.answer (.define belowInterface) = (.error error, after) ∧
        after.find? cloneableName = some ⟨1⟩ ∧ after.get ⟨0⟩ = withRoot.get ⟨0⟩ ∧
        after.find? "demo/A" = none ∧ after.Consistent := by
  obtain ⟨root, clone, error, table, rootName, cloneName, failed, left⟩ :=
    exists_answer_belowInterface
  have serves : withRoot.Serves ClassFile.IsOrdinary rootPath :=
    .single ⟨.load objectName, trivial, rfl⟩
  obtain ⟨file, parsed, bare⟩ := exists_parse_belowInterface
  have accepted : (Request.define belowInterface).Accepted ClassFile.IsOrdinary
      withRoot.toClassTable := by
    intro other parsed'
    cases parsed.symm.trans parsed'
    rw [ClassFile.IsOrdinary, bare.name]
    rfl
  have size : withRoot.size = 1 := by
    rw [table, size_register]
    rfl
  have known : withRoot.Has ⟨0⟩ := by
    rw [Has, size]
    decide
  obtain ⟨-, -, -, answers, -⟩ := answers_of_serves serves accepted
  refine ⟨serves, accepted, known, error, (withRoot.answer (.define belowInterface)).2,
    by rw [← failed], ?_,
    (answers.classes ⟨0⟩ known).2, ?_, answers.consistent⟩
  · rw [left, find?_register, if_pos cloneName]
    exact congrArg (some ∘ ClassId.mk) size
  · refine (answers.failed error failed "demo/A" ?_).trans ?_
    · rw [Request.name?, parsed, ← bare.name]
      rfl
    · rw [table, find?_register, if_neg (by rw [rootName]; decide)]
      exact find?_empty _

end Registry

end Jvm
