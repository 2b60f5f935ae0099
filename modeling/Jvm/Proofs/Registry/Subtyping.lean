import Jvm.Proofs.Machine.Pending
import Jvm.Proofs.Registry.Ordering

/-!
# Assignability as an order

Over plain class files assignability is an order on the classes of a registry, and array
classes are ordered as their components are. Where no class has the name of an array that it is
not, there is an array class for each class.
-/

namespace Jvm

open ClassTable Linking

/-! ## Lawful tables -/

/-- Whether the classes of a table are ordered, and those that have the names of arrays are the
array classes. -/
structure ClassTable.Lawful (table : ClassTable) : Prop extends table.Spelled, table.Ranked

theorem ClassTable.Lawful.empty : Lawful {} where
  toSpelled := .empty
  toRanked := .empty

/-! ## Registries over plain class files -/

namespace Registry

/-- One request to a registry, which may be to define the class of a plain file. -/
def Granted (before after : Registry) : Prop :=
  ∃ request : Request, request.Accepted before.Grants before.toClassTable ∧
    after = (before.answer request).2

/-- Whether a class file may be given to a registry and is not of a class called like an
array. -/
structure Admits (registry : Registry) (file : ClassFile) : Prop extends registry.Grants file where
  ordinary : file.IsOrdinary

/-- One request to a registry, which may be to define the class of such a file. -/
def Asked (before after : Registry) : Prop :=
  ∃ request : Request, request.Accepted before.Admits before.toClassTable ∧
    after = (before.answer request).2

variable {path : ClassPath} {registry : Registry}

theorem ranked_of_granted (plain : path.IsPlain)
    (granted : Relation.ReflTransGen Granted (ofPath path) registry) :
    registry.path = path ∧ registry.Ranked := by
  induction granted with
  | refl => exact ⟨rfl, .empty⟩
  | tail _ step ih =>
      obtain ⟨request, accepted, rfl⟩ := step
      obtain ⟨same, ranked⟩ := ih
      exact ⟨(path_answer request).trans same, ranked_answer (same ▸ plain) ranked accepted⟩

theorem granted_of_asked {before after : Registry} (asked : Relation.ReflTransGen Asked before after) :
    Relation.ReflTransGen Granted before after := by
  refine Relation.ReflTransGen.mono (fun _ _ step => ?_) _ _ asked
  obtain ⟨request, accepted, same⟩ := step
  exact ⟨request, accepted.mono fun _ admits => admits.toGrants, same⟩

/-- An answer leaves a lawful table. -/
theorem lawful_answer (plain : registry.path.IsPlain) (lawful : registry.Lawful) {request : Request}
    (accepted : request.Accepted registry.Admits registry.toClassTable) :
    (registry.answer request).2.path = registry.path ∧ (registry.answer request).2.Lawful := by
  have ⟨kept, extended⟩ := extends_answer (fun _ admits => Admits.ordinary admits)
    lawful.toConsistent.named accepted
  refine ⟨kept, ?_, ranked_answer plain lawful.toRanked
    (accepted.mono fun _ admits => Admits.toGrants admits)⟩
  refine extended.spelled ?_ lawful.toSpelled
  rintro file (provided | admits)
  · exact provided.ordinary
  · exact admits.ordinary

theorem lawful_of_asked (plain : path.IsPlain)
    (asked : Relation.ReflTransGen Asked (ofPath path) registry) :
    registry.path = path ∧ registry.Lawful := by
  induction asked with
  | refl => exact ⟨rfl, .empty⟩
  | tail _ step ih =>
      obtain ⟨request, accepted, rfl⟩ := step
      obtain ⟨same, lawful⟩ := ih
      have ⟨kept, later⟩ := lawful_answer (same ▸ plain) lawful accepted
      exact ⟨kept.trans same, later⟩

/-- There is an array class of every component, unless it has too many dimensions, once the
interfaces of all arrays are known. -/
theorem exists_arrayOf (lawful : registry.Lawful)
    (known : ∀ name, ArrayName.IsAbove name → ∃ id, registry.find? name = some id)
    {component : ClassId} (inside : registry.Has component)
    (few : ArrayName.dimensions (registry.get component).name < 255) :
    ∃ id, (registry.arrayOf component).1 = .ok id := by
  have same := lawful.isArray_eq inside
  have array := ArrayName.isArrayName_ofComponent (registry.get component).name
    (registry.get component).isArray
  have found := ArrayName.component_ofComponent same few
  have self := (lawful.names _ component).mpr ⟨inside, rfl⟩
  obtain ⟨object, root⟩ := lawful.exists_root inside
  obtain ⟨cloneable, first⟩ := known cloneableName (.inl rfl)
  obtain ⟨serializable, second⟩ := known serializableName (.inr rfl)
  have loads : ∃ id after, Linking.load registry.path [] (ArrayName.ofComponent
      (registry.get component).name (registry.get component).isArray) registry.toClassTable =
        .ok id after := by
    cases here : registry.find? (ArrayName.ofComponent (registry.get component).name
        (registry.get component).isArray) with
    | some id => exact ⟨id, _, Linking.load_of_find? here⟩
    | none =>
        exact ⟨_, _, Linking.load_array_of_made array here (.component found self) root first second⟩
  obtain ⟨id, after, ran⟩ := loads
  refine ⟨id, ?_⟩
  have steps : Linking.arrayOf registry.path component registry.toClassTable = .ok id after :=
    (bind_of_ok rfl).trans ran
  rw [arrayOf, link, EStateM.run, steps]

/-- Arrays are assignable as their components are. -/
theorem isAssignable_arrayOf (lawful : registry.Lawful) {first second array other : ClassId}
    (known : registry.Has first) (known' : registry.Has second)
    (found : registry.find? (ArrayName.ofComponent (registry.get first).name
      (registry.get first).isArray) = some array)
    (found' : registry.find? (ArrayName.ofComponent (registry.get second).name
      (registry.get second).isArray) = some other) :
    registry.isAssignable array other = registry.isAssignable first second := by
  obtain ⟨info, isArray, component, -⟩ := lawful.component_of_found known found
  obtain ⟨info', isArray', component', -⟩ := lawful.component_of_found known' found'
  have inside := ((lawful.names _ array).mp found).1
  have inside' := ((lawful.names _ other).mp found').1
  rw [Bool.eq_iff_iff, lawful.isAssignable_iff inside inside', lawful.isAssignable_iff known known',
    lawful.below_iff_of_components inside isArray component isArray' component']

/-- Array classes that are asked for one after the other are found by the names they have. -/
theorem found_of_arrayOf (plain : path.IsPlain)
    (asked : Relation.ReflTransGen Asked (ofPath path) registry)
    {first second array other : ClassId} (inside : registry.Has first)
    (inside' : registry.Has second) (made : (registry.arrayOf first).1 = .ok array)
    (made' : ((registry.arrayOf first).2.arrayOf second).1 = .ok other) :
    let after := ((registry.arrayOf first).2.arrayOf second).2
    after.Lawful ∧ (∀ name id, registry.find? name = some id → after.find? name = some id) ∧
      after.Has first ∧ after.Has second ∧
      after.find? (ArrayName.ofComponent (after.get first).name (after.get first).isArray) =
        some array ∧
      after.find? (ArrayName.ofComponent (after.get second).name (after.get second).isArray) =
        some other := by
  obtain ⟨-, lawful⟩ := lawful_of_asked plain asked
  have step : Asked registry (registry.arrayOf first).2 := ⟨.arrayOf first, inside, rfl⟩
  have answers : registry.Answers (.arrayOf first) (registry.arrayOf first) :=
    answers_of_accepted lawful.toConsistent inside
  obtain ⟨-, lawful'⟩ := lawful_of_asked plain (asked.tail step)
  obtain ⟨moved, same⟩ := answers.classes second inside'
  have step' : Asked (registry.arrayOf first).2 ((registry.arrayOf first).2.arrayOf second).2 :=
    ⟨.arrayOf second, moved, rfl⟩
  have answers' : (registry.arrayOf first).2.Answers (.arrayOf second)
      ((registry.arrayOf first).2.arrayOf second) :=
    answers_of_accepted lawful'.toConsistent moved
  obtain ⟨-, lawful''⟩ := lawful_of_asked plain ((asked.tail step).tail step')
  obtain ⟨name, ⟨⟩, found⟩ := answers.linked array made
  obtain ⟨name', ⟨⟩, found'⟩ := answers'.linked other made'
  obtain ⟨inside, same⟩ := answers.classes first inside
  obtain ⟨inside, same'⟩ := answers'.classes first inside
  obtain ⟨inside', same''⟩ := answers'.classes second moved
  have found := answers'.names _ _ found
  rw [← same, ← same'] at found
  rw [← same''] at found'
  exact ⟨lawful'', fun name id known => answers'.names name id (answers.names name id known),
    inside, inside', found, found'⟩

/-- Over plain class files, as those of the bootstrap library are before any plain ones,
assignability is an order on the classes of a registry. It has the root at the top; a class is
below the classes on its superclass chain, and of the interfaces below just those reached from
that chain by going from interface to superinterface; and array classes are ordered as their
components are. Unless a class is called like an array, there is an array class for every class
of less than 255 dimensions, and those that are asked for are ordered as the classes they are
asked for. -/
theorem assignability_order (plain : path.IsPlain)
    (granted : Relation.ReflTransGen Granted (ofPath path) registry) :
    (∀ library users, Bootstrap.classPath = .ok library →
      (∀ file, users.Provides file → file.IsPlain) → (library ++ users).IsPlain) ∧
    (∀ id, registry.isAssignable id id = true) ∧
    (∀ first second third, registry.Has first → registry.Has second → registry.Has third →
      registry.isAssignable first second = true → registry.isAssignable second third = true →
        registry.isAssignable first third = true) ∧
    (∀ id, registry.Has id → ∃ root, registry.find? objectName = some root ∧
      registry.isAssignable id root = true) ∧
    (∀ id, registry.Has id → ∀ above ∈ registry.superChain id,
      registry.isAssignable id above = true) ∧
    (∀ id iface, registry.Has id → registry.Has iface →
      (registry.get iface).isInterface = true → (registry.isAssignable id iface = true ↔
        ∃ above ∈ registry.superChain id,
          Relation.ReflTransGen registry.Declares above iface)) ∧
    (∀ array other held wanted first second, registry.Has array → registry.Has other →
      (registry.get array).array = some held → held.component = some first →
      (registry.get other).array = some wanted → wanted.component = some second →
        registry.isAssignable array other = registry.isAssignable first second) ∧
    (Relation.ReflTransGen Asked (ofPath path) registry →
      (∀ component, registry.Has component →
        ArrayName.dimensions (registry.get component).name < 255 →
        (∀ name, ArrayName.IsAbove name → ∃ id, registry.find? name = some id) →
          ∃ array, (registry.arrayOf component).1 = .ok array) ∧
      ∀ first second array other, registry.Has first → registry.Has second →
        (registry.arrayOf first).1 = .ok array →
        ((registry.arrayOf first).2.arrayOf second).1 = .ok other →
          ((registry.arrayOf first).2.arrayOf second).2.isAssignable array other =
            ((registry.arrayOf first).2.arrayOf second).2.isAssignable first second) := by
  obtain ⟨-, ranked⟩ := ranked_of_granted plain granted
  refine ⟨fun _ _ => ClassPath.isPlain_library_append,
    fun id => by rw [isAssignable, if_pos rfl], ?_, ?_, ?_, ?_, ?_, fun asked => ?_⟩
  · intro first second third inside inside' inside'' left right
    rw [ranked.isAssignable_iff inside inside'] at left
    rw [ranked.isAssignable_iff inside' inside''] at right
    exact (ranked.isAssignable_iff inside inside'').mpr (ranked.below_trans inside inside' left right)
  · intro id inside
    obtain ⟨root, found⟩ := ranked.exists_root inside
    exact ⟨root, found, (ranked.isAssignable_iff inside (ranked.named _ root found).1).mpr
      (.up (ranked.reached_root inside found))⟩
  · intro id inside above member
    have inside' : registry.Has above := Nat.lt_of_le_of_lt (index_le_of_mem_superChain member) inside
    exact (ranked.isAssignable_iff inside inside').mpr
      (.up (ranked.reached_of_mem_superChain inside member))
  · intro id iface inside inside' interface
    rw [ranked.isAssignable_iff inside inside', ranked.below_iff_declares inside inside' interface]
  · intro array other held wanted first second inside inside' isArray component isArray' component'
    have lower := (ranked.has_of_component inside isArray component).2
    have lower' := (ranked.has_of_component inside' isArray' component').2
    rw [Bool.eq_iff_iff, ranked.isAssignable_iff inside inside', ranked.isAssignable_iff lower lower',
      ranked.below_iff_of_components inside isArray component isArray' component']
  · obtain ⟨-, lawful⟩ := lawful_of_asked plain asked
    refine ⟨fun _ inside few known => exists_arrayOf lawful known inside few, ?_⟩
    intro first second array other inside inside' made made'
    obtain ⟨lawful, -, inside, inside', found, found'⟩ :=
      found_of_arrayOf plain asked inside inside' made made'
    exact isAssignable_arrayOf lawful inside inside' found found'

theorem asked_rooted : Relation.ReflTransGen Asked (ofPath rootPath) rooted :=
  .tail (.tail (.tail .refl ⟨.load objectName, trivial, rfl⟩) ⟨.load cloneableName, trivial, rfl⟩)
    ⟨.load serializableName, trivial, rfl⟩

/-- There are arrays of an interface and arrays of the root, and the first may be stored as the
second. -/
theorem assignability_order_arrays :
    rootPath.IsPlain ∧ Relation.ReflTransGen Asked (ofPath rootPath) rooted ∧
      ∃ array other, (rooted.arrayOf ⟨1⟩).1 = .ok array ∧
        ((rooted.arrayOf ⟨1⟩).2.arrayOf ⟨0⟩).1 = .ok other ∧
        ((rooted.arrayOf ⟨1⟩).2.arrayOf ⟨0⟩).2.isAssignable array other = true := by
  obtain ⟨-, size, roots, -⟩ := hasRoots_rooted
  obtain ⟨-, lawful⟩ := lawful_of_asked isPlain_rootPath asked_rooted
  obtain ⟨known, named⟩ := (lawful.names _ _).mp roots.cloneable.1
  obtain ⟨known', named'⟩ := (lawful.names _ _).mp roots.object.1
  obtain ⟨-, -, -, -, -, -, -, arrays⟩ := assignability_order isPlain_rootPath (granted_of_asked asked_rooted)
  obtain ⟨exist, order⟩ := arrays asked_rooted
  have above : ∀ name, ArrayName.IsAbove name → ∃ id, rooted.find? name = some id := by
    rintro name (rfl | rfl)
    · exact ⟨⟨1⟩, roots.cloneable.1⟩
    · exact ⟨⟨2⟩, roots.serializable.1⟩
  obtain ⟨array, made⟩ := exist ⟨1⟩ known (named ▸ by decide) above
  -- the registry with the first array class
  have answers : rooted.Answers (.arrayOf ⟨1⟩) (rooted.arrayOf ⟨1⟩) :=
    answers_of_accepted lawful.toConsistent known
  have asked : Relation.ReflTransGen Asked (ofPath rootPath) (rooted.arrayOf ⟨1⟩).2 :=
    asked_rooted.tail ⟨.arrayOf ⟨1⟩, known, rfl⟩
  obtain ⟨moved, same⟩ := answers.classes ⟨0⟩ known'
  obtain ⟨-, -, -, -, -, -, -, arrays'⟩ :=
    assignability_order isPlain_rootPath (granted_of_asked asked)
  obtain ⟨other, made'⟩ := (arrays' asked).1 ⟨0⟩ moved (by rw [same, named']; decide)
    fun name isAbove => (above name isAbove).imp fun id => answers.names name id
  -- the registry with both
  obtain ⟨-, kept, inside, -⟩ :=
    found_of_arrayOf isPlain_rootPath asked_rooted known known' made made'
  have last := asked.tail (b := (rooted.arrayOf ⟨1⟩).2) ⟨.arrayOf ⟨0⟩, moved, rfl⟩
  obtain ⟨-, -, -, top, -⟩ :=
    assignability_order isPlain_rootPath (granted_of_asked last)
  refine ⟨isPlain_rootPath, asked_rooted, array, other, made, made', ?_⟩
  rw [order ⟨1⟩ ⟨0⟩ array other known known' made made']
  obtain ⟨root, found, below⟩ := top ⟨1⟩ inside
  cases found.symm.trans (kept _ _ roots.object.1)
  exact below

/-! ### An interface of all arrays that extends another one -/

/-- A file is plain if its outline names the root as the superclass. -/
theorem isPlain_of_outline {file : ClassFile} {outline : ClassFile.Outline}
    (same : file.outline = outline) (top : outline.superclass = some objectName) :
    file.IsPlain := by
  have named : file.superclass = some objectName := (same ▸ rfl : _ = outline.superclass).trans top
  refine ⟨fun name declared => ?_, fun _ => named⟩
  cases named.symm.trans declared
  rfl

/-- An interface that extends no other. -/
def labelOutline : ClassFile.Outline where
  flags := 0x601
  name := "demo/Label"

/-- An interface with the name of one that all arrays are below, which extends it. -/
def cloneOutline : ClassFile.Outline where
  flags := 0x601
  name := cloneableName
  interfaces := ["demo/Label"]

/-- A registry that was given both before it loaded an array class. -/
def labelled : Registry :=
  [.load objectName, .load serializableName, .define (labelOutline.bytes []),
    .define (cloneOutline.bytes []), .load "[I"].foldl
      (fun registry request => (registry.answer request).2) (ofPath rootPath)

theorem serves_labelled : labelled.Serves ClassFile.IsPlain rootPath := by
  have accepted {outline : ClassFile.Outline} (table : ClassTable)
      (shown : (ClassFile.parse (outline.bytes [])).toOption.map ClassFile.outline = some outline)
      (top : outline.superclass = some objectName) :
      (Request.define (outline.bytes [])).Accepted ClassFile.IsPlain table := by
    intro file parsed
    rw [parsed] at shown
    exact isPlain_of_outline (Option.some.inj shown) top
  refine .tail (.tail (.tail (.tail (.tail .refl ⟨.load objectName, trivial, rfl⟩)
    ⟨.load serializableName, trivial, rfl⟩) ⟨.define (labelOutline.bytes []), ?_, rfl⟩)
      ⟨.define (cloneOutline.bytes []), ?_, rfl⟩) ⟨.load "[I", trivial, rfl⟩
  · exact accepted _ (by decide +kernel) rfl
  · exact accepted _ (by decide +kernel) rfl

theorem exists_labelled : ∃ root marker label clone : Class,
    labelled.Holds [objectName, serializableName, "demo/Label", cloneableName, "[I"]
      [root, marker, label, clone, Class.ofArray ⟨4⟩ "[I" .int none ⟨0⟩ [⟨3⟩, ⟨1⟩]] ∧
    labelOutline.Links ⟨2⟩ (some root) [] label ∧
    cloneOutline.Links ⟨3⟩ (some root) [⟨2⟩] clone := by
  obtain ⟨root, rootName, rootSort, given⟩ := exists_adds_root (ofPath rootPath) 0x21 objectName
    rfl (find?_empty objectName) rfl (by decide +kernel) fun _ bare => bare.above_root rfl rfl
  have first := (holds_ofPath rootPath).adds given List.not_mem_nil
  have object := given.knows_self
  rw [rootName, rootSort] at object
  obtain ⟨marker, markerName, markerSort, given'⟩ := exists_adds_root _ 0x601 serializableName
    given.path ((first.names _).trans (by rw [rootName]; rfl)) rfl (by decide +kernel)
    fun file (bare : file.IsBare _ _ (some objectName)) => bare.above_class rfl object
  have second := first.adds given' (by rw [rootName, markerName]; decide)
  rw [rootName, markerName] at second
  have sort : Access.has root.flags Access.isInterface = false := rootSort
  have object := second.knows 0 objectName rfl (rfl : _ = root.flags)
  rw [sort] at object
  obtain ⟨label, lower, third⟩ := second.define labelOutline [] (some ⟨0⟩) [] (by decide +kernel)
    (by decide +kernel) (by decide) ⟨object, .nil⟩
  have object := third.knows 0 objectName rfl (rfl : _ = root.flags)
  rw [sort] at object
  have interface := third.knows 2 "demo/Label" rfl lower.flags
  obtain ⟨clone, upper, fourth⟩ := third.define cloneOutline [] (some ⟨0⟩) [⟨2⟩]
    (by decide +kernel) (by decide +kernel) (by decide) ⟨object, .cons interface .nil⟩
  have object := fourth.knows 0 objectName rfl (rfl : _ = root.flags)
  rw [sort] at object
  have cloneable := fourth.knows 3 cloneableName rfl upper.flags
  have serializable := fourth.knows 1 serializableName rfl (rfl : _ = marker.flags)
  rw [show Access.has marker.flags Access.isInterface = true from markerSort] at serializable
  have spelled : ArrayName.component "[I" = .ok (.primitive .int) := by decide +kernel
  have last := fourth.adds (adds_array rfl ((fourth.names "[I").trans rfl) (.primitive spelled)
    ⟨object, cloneable, serializable⟩) (by decide)
  have next : ClassTable.nextId _ = ⟨4⟩ := congrArg ClassId.mk fourth.size
  rw [next] at last
  rw [Option.map_some, second.get] at lower
  rw [Option.map_some, third.get] at upper
  exact ⟨root, marker, label, clone, last, lower, upper⟩

/-- Arrays are below the interface, which is below the one it extends, but this one is not
found above an array: of the interfaces only two are, whatever these extend. -/
theorem labelled_assignability :
    rootPath.IsPlain ∧ labelled.Serves ClassFile.IsPlain rootPath ∧
      labelled.isAssignable ⟨4⟩ ⟨3⟩ = true ∧ labelled.isAssignable ⟨3⟩ ⟨2⟩ = true ∧
      labelled.isAssignable ⟨4⟩ ⟨2⟩ = false := by
  obtain ⟨root, marker, label, clone, holds, lower, upper⟩ := exists_labelled
  have closed := serves_labelled.closed.table
  have third : labelled.get ⟨2⟩ = label := holds.get 2
  have fourth : labelled.get ⟨3⟩ = clone := holds.get 3
  have fifth : labelled.get ⟨4⟩ = Class.ofArray ⟨4⟩ "[I" .int none ⟨0⟩ [⟨3⟩, ⟨1⟩] := holds.get 4
  have named : label.name = "demo/Label" := lower.name
  have named' : clone.name = cloneableName := upper.name
  refine ⟨isPlain_rootPath, serves_labelled, ?_, ?_, ?_⟩
  · rw [isAssignable, if_neg (by decide)]
    simp [fourth, fifth, named', upper.array, Class.ofArray]
  · have interface : label.isInterface = true := by
      rw [Class.isInterface, lower.flags]
      decide
    have declared : labelled.Declares ⟨3⟩ ⟨2⟩ := by
      rw [Declares, fourth, upper.interfaces_eq]
      exact .head _
    have implemented : labelled.implements ⟨3⟩ ⟨2⟩ = true := by
      rw [implements, decide_eq_true_iff, mem_allInterfaces_iff (fun id known => (closed.classes id known).interfaces)
        (holds.has_iff.mpr (by decide))]
      exact ⟨⟨3⟩, labelled.mem_superChain_self ⟨3⟩, ⟨2⟩, declared, .refl⟩
    rw [isAssignable, if_neg (by decide)]
    simp [third, fourth, named, upper.array, interface, implemented]
  · rw [isAssignable, if_neg (by decide)]
    simp [third, fifth, named, lower.array, Class.ofArray, objectName, cloneableName,
      serializableName]

end Registry

end Jvm
