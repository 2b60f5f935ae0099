import Jvm.Proofs.Changing.Copying
import Jvm.Proofs.Registry.Ordering

/-!
# Elements of the classes that arrays are made for

An array of references suits its elements if each is of a class that is below the class of the
components. Classes that are linked stay below the classes that they are below, a collection takes
no element from an array that it leaves, and an object that comes in has a handle that nobody
holds. So arrays that suit their elements do so after all of this, and after elements are written
that suit the array.
-/

namespace Jvm

/-- The elements that a letter describes are no references. -/
theorem ArrayName.isReference_of_component {name : String} {kind : Kind}
    (found : component name = .ok (.primitive kind)) : kind.isReference = false := by
  rw [component] at found
  split at found
  · cases found
  · dsimp only at found
    split at found
    · cases found
    · split at found
      · cases found
      · split at found
        · split at found
          · cases found
          next primitive =>
              cases found
              exact Bool.eq_false_iff.mpr primitive
        · cases found

/-! ## Classes that go on -/

namespace ClassTable

/-- The class that the elements of arrays of a class are of, if these are references. -/
def component? (table : ClassTable) (array : ClassId) : Option ClassId :=
  (table.get array).array.bind (·.component)

variable {table before after : ClassTable}

theorem has_of_component? {array component : ClassId}
    (found : table.component? array = some component) : table.Has array := by
  obtain ⟨info, isArray, -⟩ := Option.bind_eq_some_iff.mp found
  exact has_of_array isArray

namespace Ranked

variable (ranked : table.Ranked)

include ranked

theorem has_component? {array component : ClassId}
    (found : table.component? array = some component) : table.Has component := by
  obtain ⟨info, isArray, part⟩ := Option.bind_eq_some_iff.mp found
  exact (ranked.has_of_component (has_of_array isArray) isArray part).2

/-- Arrays of references have a class for their elements. -/
theorem exists_component? {array : ClassId} {info : ArrayInfo}
    (isArray : (table.get array).array = some info) (references : info.element = .reference) :
    ∃ component, table.component? array = some component := by
  have part := (ranked.bears array info (has_of_array isArray) isArray).part
  cases inside : info.component with
  | some component => exact ⟨component, Option.bind_eq_some_iff.mpr ⟨info, isArray, inside⟩⟩
  | none =>
      rw [inside, references] at part
      cases part with
      | primitive found => cases ArrayName.isReference_of_component found

/-- A table holds its own ids if its constants do. -/
theorem closed (pools : ∀ id index, table.Has id → ((table.get id).pool.slot index).IdsIn table) :
    table.Closed where
  ids id known := (ranked.stands id known).own
  classes id known := by
    have stands := ranked.stands id known
    exact {
      superclass := fun above declared => Nat.lt_trans (stands.superclass above declared) known
      interfaces := fun iface declared => Nat.lt_trans (stands.interfaces iface declared) known
      component := fun info component isArray inside =>
        Nat.lt_trans (stands.component info component isArray inside) known
      pool := fun index => pools id index known }
  names name id found := (ranked.named name id found).1

/-- Classes without fields are laid out, whatever they are below. -/
theorem laid (arrays : ∀ id, table.Has id → (table.get id).isArray = true →
      (table.get id).isAbstract = true)
    (empty : ∀ id, table.Has id → (table.get id).layout = {}) : table.Laid where
  own id known := (ranked.stands id known).own
  names := ranked.named
  arrays id known isArray := by
    obtain ⟨info, held⟩ := Option.isSome_iff_exists.mp isArray
    exact ⟨(ranked.bears id info known held).called, arrays id known isArray⟩
  slots id known _ := by
    have layout := empty id known
    have slots : (table.get id).instanceSlots = 0 := congrArg Layout.instanceSlots layout
    rw [slots, layout]
    exact ⟨Nat.zero_le _, fun _ _ slot => nomatch slot⟩

end Ranked

namespace KeepsFixed

variable (keeps : before.KeepsFixed after)

include keeps

theorem component?_eq {array component : ClassId}
    (found : before.component? array = some component) :
    after.component? array = some component := by
  obtain ⟨-, fixed⟩ := keeps array (has_of_component? found)
  rw [component?, Class.view_of_fixed Class.array (fun _ => rfl) fixed]
  exact found

theorem parent {id above : ClassId} (known : before.Has id) (parent : before.Parent id above) :
    after.Parent id above := by
  obtain ⟨-, fixed⟩ := keeps id known
  rcases parent with declared | declared
  · exact .inl ((Class.view_of_fixed Class.superclass (fun _ => rfl) fixed).trans declared)
  · refine .inr ?_
    rw [Declares, Class.view_of_fixed Class.interfaces (fun _ => rfl) fixed]
    exact declared

/-- A class stays below the classes that it is below. -/
theorem below (ranked : before.Ranked) {id above : ClassId} (known : before.Has id)
    (known' : before.Has above) (below : before.Below id above) : after.Below id above := by
  have array {id : ClassId} {info : ArrayInfo} (isArray : (before.get id).array = some info) :
      (after.get id).array = some info := by
    obtain ⟨-, fixed⟩ := keeps id (has_of_array isArray)
    exact (Class.view_of_fixed Class.array (fun _ => rfl) fixed).trans isArray
  induction below with
  | @up id above reached =>
      refine .up ?_
      clear known'
      induction reached using Relation.ReflTransGen.head_induction_on with
      | refl => exact .refl
      | head parent _ ih =>
          exact .head (keeps.parent known parent) (ih (ranked.has_of_parent known parent))
  | arrays isArray component isArray' component' _ ih =>
      have inside := (ranked.has_of_component known isArray component).2
      have inside' := (ranked.has_of_component known' isArray' component').2
      exact .arrays (array isArray) component (array isArray') component' (ih inside inside')
  | primitives isArray component isArray' component' element =>
      exact .primitives (array isArray) component (array isArray') component' element

end KeepsFixed

theorem Prefixes.keepsFixed (prefixes : before.Prefixes after) : before.KeepsFixed after :=
  fun id known => ⟨prefixes.has known, congrArg Class.fixed (prefixes.classes id known)⟩

/-- Whether a table differs from another one at most in what programs change of classes. -/
structure SameFixed (before after : ClassTable) : Prop where
  size : after.size = before.size
  found : ∀ name, after.find? name = before.find? name
  fixed : ∀ id, (after.get id).fixed = (before.get id).fixed

namespace SameFixed

theorem modify (table : ClassTable) (id : ClassId) {change : Class → Class}
    (fixed : ∀ cls : Class, (change cls).fixed = cls.fixed) :
    table.SameFixed (table.modify id change) where
  size := size_modify ..
  found _ := rfl
  fixed other := table.view_modify id other change Class.fixed fixed

variable (same : before.SameFixed after)

include same

theorem has_iff {id : ClassId} : after.Has id ↔ before.Has id := by rw [Has, Has, same.size]

theorem view {α : Type} (read : Class → α) (blind : ∀ cls : Class, read cls.fixed = read cls)
    (id : ClassId) : read (after.get id) = read (before.get id) :=
  Class.view_of_fixed read blind (same.fixed id)

theorem name_eq (id : ClassId) : (after.get id).name = (before.get id).name :=
  same.view Class.name (fun _ => rfl) id

theorem isInterface_eq (id : ClassId) : (after.get id).isInterface = (before.get id).isInterface :=
  same.view Class.isInterface (fun _ => rfl) id

theorem array_eq (id : ClassId) : (after.get id).array = (before.get id).array :=
  same.view Class.array (fun _ => rfl) id

theorem superclass_eq (id : ClassId) : (after.get id).superclass = (before.get id).superclass :=
  same.view Class.superclass (fun _ => rfl) id

theorem interfaces_eq (id : ClassId) : (after.get id).interfaces = (before.get id).interfaces :=
  same.view Class.interfaces (fun _ => rfl) id

theorem keepsFixed : before.KeepsFixed after :=
  fun id known => ⟨same.has_iff.mpr known, same.fixed id⟩

theorem ranked (ranked : before.Ranked) : after.Ranked where
  stands id known := by
    have stands := ranked.stands id (same.has_iff.mp known)
    refine ⟨(same.view Class.id (fun _ => rfl) id).trans stands.own, ?_, ?_, ?_, ?_⟩
    · exact same.superclass_eq id ▸ stands.superclass
    · exact same.interfaces_eq id ▸ stands.interfaces
    · exact same.array_eq id ▸ stands.component
    · rw [same.superclass_eq, same.name_eq]
      exact stands.root
  named text id := by
    rw [same.found, same.has_iff, same.name_eq]
    exact ranked.named text id
  found id known := by
    rw [same.found, same.name_eq]
    exact ranked.found id (same.has_iff.mp known)
  bears id info known isArray := by
    rw [same.array_eq] at isArray
    have bears := ranked.bears id info (same.has_iff.mp known) isArray
    refine ⟨?_, ?_, ?_, ?_, ?_⟩
    · exact same.name_eq id ▸ bears.called
    · exact same.isInterface_eq id ▸ bears.sort
    · have part := bears.part
      rw [same.name_eq]
      generalize info.element = element, info.component = component at part
      cases part with
      | primitive found => exact .primitive found
      | component found called => exact .component found ((same.name_eq _).trans called)
    · rw [same.superclass_eq, same.found]
      exact bears.superclass
    · rw [same.interfaces_eq, same.found, same.found]
      exact bears.interfaces
  superclass id above known := by
    rw [same.superclass_eq, same.isInterface_eq, same.array_eq]
    exact ranked.superclass id above (same.has_iff.mp known)
  interfaces id iface known := by
    rw [Declares, same.interfaces_eq, same.isInterface_eq]
    exact ranked.interfaces id iface (same.has_iff.mp known)
  interface id known interface := by
    rw [same.isInterface_eq] at interface
    rw [same.superclass_eq, same.found]
    exact ranked.interface id (same.has_iff.mp known) interface
  markers text id above := by
    rw [same.found, same.isInterface_eq, same.interfaces_eq]
    exact ranked.markers text id above

end SameFixed

end ClassTable

/-! ## Heaps -/

/-- Whether an array has a reference among its elements. -/
def ArrayData.Contains (data : ArrayData) (ref : Ref) : Prop :=
  ∃ elements, data = .refs elements ∧ some ref ∈ elements

theorem ArrayData.not_contains_ofSize (kind : Kind) (size : Nat) (ref : Ref) :
    ¬(ofSize kind size).Contains ref := by
  rintro ⟨elements, same, member⟩
  cases kind <;> cases same
  cases Array.eq_of_mem_replicate member

namespace Heap

/-- Whether two heaps have objects of the same classes at the same handles, and the same arrays
among them. -/
structure SameArrays (before after : Heap) : Prop where
  classes : ∀ ref, after.class? ref = before.class? ref
  arrays : ∀ ref, after.array? ref = before.array? ref

namespace SameArrays

theorem of_objects {before after : Heap} (objects : after.objects = before.objects) :
    before.SameArrays after := by
  constructor
  · intro ref
    rw [Heap.class?, Heap.get?, objects]
    rfl
  · intro ref
    rw [Heap.array?, Heap.get?, objects]
    rfl

theorem modify (heap : Heap) (ref : Ref) {change : Object → Object}
    (cls : ∀ object, (change object).cls = object.cls)
    (array? : ∀ object, (change object).array? = object.array?) :
    heap.SameArrays (heap.modify ref change) where
  classes other := heap.class?_modify ref other cls
  arrays other := by
    rw [Heap.array?, Heap.array?, get?_modify]
    split
    · cases heap.get? other with
      | none => rfl
      | some object => exact array? object
    · rfl

theorem setSticky (heap : Heap) (ref : Ref) : heap.SameArrays (heap.setSticky ref) :=
  modify heap ref (fun _ => rfl) fun _ => rfl

theorem modifyFields (heap : Heap) (ref : Ref) (change : Fields → Fields) :
    heap.SameArrays (heap.modifyFields ref change) :=
  modify heap ref Object.cls_modifyFields fun ⟨_, _, body, _, _, _⟩ => by cases body <;> rfl

theorem releaseMonitors (heap : Heap) (exec : ExecId) :
    heap.SameArrays (heap.releaseMonitors exec) where
  classes := (SameShapes.releaseMonitors heap exec).class?
  arrays ref := by
    simp only [Heap.array?, Heap.get?, Heap.releaseMonitors, Array.getD_eq_getD_getElem?,
      Array.getElem?_map]
    rcases heap.objects[ref.index]? with _ | _ | object
    · rfl
    · rfl
    · simp only [Option.map_some, Option.getD_some, Option.bind_some]
      split <;> rfl

end SameArrays

theorem array?_modifyArray (heap : Heap) (target ref : Ref) (change : ArrayData → ArrayData) :
    (heap.modifyArray target change).array? ref =
      if target = ref then (heap.array? ref).map change else heap.array? ref := by
  have changes (object : Object) :
      (object.modifyArray change).array? = object.array?.map change := by
    obtain ⟨_, _, body, _, _⟩ := object
    cases body <;> rfl
  rw [Heap.array?, Heap.modifyArray, get?_modify]
  split
  · rw [Heap.array?, Option.map_bind, Option.bind_map]
    exact congrArg (Option.bind _) (funext changes)
  · rfl

/-- Whether a handle may be an element of arrays of a class: it is that of an object whose class is
below that of the components. -/
def Suits (heap : Heap) (table : ClassTable) (array : ClassId) (ref : Ref) : Prop :=
  ∃ held component, heap.class? ref = some held ∧ table.Has held ∧
    table.component? array = some component ∧ table.Below held component

/-- Whether the elements of all arrays of a heap suit them. -/
def Suited (heap : Heap) (table : ClassTable) : Prop :=
  ∀ array cls data ref, heap.class? array = some cls → heap.array? array = some data →
    data.Contains ref → heap.Suits table cls ref

variable {heap other : Heap} {table after : ClassTable} {array : ClassId} {ref : Ref}

theorem Suits.of_classes (suits : heap.Suits table array ref)
    (kept : ∀ held, heap.class? ref = some held → other.class? ref = some held) :
    other.Suits table array ref := by
  obtain ⟨held, component, live, rest⟩ := suits
  exact ⟨held, component, kept held live, rest⟩

theorem Suits.keep (suits : heap.Suits table array ref) (ranked : table.Ranked)
    (keeps : table.KeepsFixed after) : heap.Suits after array ref := by
  obtain ⟨held, component, live, known, found, below⟩ := suits
  exact ⟨held, component, live, (keeps held known).1, keeps.component?_eq found,
    keeps.below ranked known (ranked.has_component? found) below⟩

namespace Suited

variable (suited : heap.Suited table)

include suited

theorem keep (ranked : table.Ranked) (keeps : table.KeepsFixed after) : heap.Suited after :=
  fun array cls data ref live held contains =>
    (suited array cls data ref live held contains).keep ranked keeps

theorem sameArrays (same : heap.SameArrays other) : other.Suited table := by
  intro array cls data ref live held contains
  rw [same.classes] at live
  rw [same.arrays] at held
  exact (suited array cls data ref live held contains).of_classes fun _ there =>
    (same.classes ref).trans there

/-- An array whose elements are written suits them if it suits what is written. -/
theorem modifyArray {target : Ref} {change : ArrayData → ArrayData}
    (suits : ∀ cls data ref, heap.class? target = some cls → heap.array? target = some data →
      (change data).Contains ref → heap.Suits table cls ref) :
    (heap.modifyArray target change).Suited table := by
  have classes (ref : Ref) : (heap.modifyArray target change).class? ref = heap.class? ref :=
    heap.class?_modify target ref Object.cls_modifyArray
  intro array cls data ref live held contains
  rw [classes] at live
  refine Suits.of_classes ?_ fun _ there => (classes ref).trans there
  rw [array?_modifyArray] at held
  split at held
  next same =>
      subst same
      obtain ⟨old, there, rfl⟩ := Option.map_eq_some_iff.mp held
      exact suits cls old ref live there contains
  next => exact suited array cls data ref live held contains

end Suited

end Heap

/-! ## Machines -/

namespace Machine

/-- Whether the elements of all arrays of a machine suit them, among classes that are ordered by
what is assignable to what and go on to be. -/
structure Typed (machine : Machine) : Prop extends machine.Spacious where
  ranked : machine.registry.Ranked
  plain : machine.registry.path.IsPlain
  string : machine.registry.find? "java/lang/String" = some machine.known.string
  suited : machine.heap.Suited machine.registry.toClassTable

variable {machine after : Machine}

namespace Typed

variable (typed : machine.Typed)

include typed

theorem of_same (registry : after.registry = machine.registry) (heap : after.heap = machine.heap)
    (known : after.known = machine.known) : after.Typed := by
  refine ⟨⟨?_, ?_⟩, ?_, ?_, ?_, ?_⟩
  · exact heap ▸ typed.balanced
  · exact heap ▸ typed.small
  · exact registry ▸ typed.ranked
  · exact registry ▸ typed.plain
  · exact registry ▸ known ▸ typed.string
  · exact heap ▸ registry ▸ typed.suited

/-! ### Heaps -/

theorem of_turn {heap : Heap} (turn : machine.heap.Turn heap)
    (suited : heap.Suited machine.registry.toClassTable) : { machine with heap }.Typed :=
  ⟨⟨turn.balanced typed.balanced, turn.limit_eq ▸ typed.small⟩, typed.ranked,
    typed.plain, typed.string, suited⟩

/-- Arrays stay as they are. -/
theorem of_sameArrays {heap : Heap} (shapes : machine.heap.SameShapes heap)
    (counts : machine.heap.SameCounts heap) (same : machine.heap.SameArrays heap) :
    { machine with heap }.Typed :=
  typed.of_turn (.keeps shapes counts) (typed.suited.sameArrays same)

theorem of_objects {heap : Heap} (objects : heap.objects = machine.heap.objects)
    (free : heap.free = machine.heap.free) (used : heap.usedBytes = machine.heap.usedBytes)
    (counts : machine.heap.SameCounts heap) : { machine with heap }.Typed :=
  typed.of_sameArrays (Heap.Writes.of_objects objects free used).toSameShapes counts
    (.of_objects objects)

theorem setSticky (ref : Ref) : (machine.modifyHeap fun heap => heap.setSticky ref).Typed :=
  have rewrites := Heap.Rewrites.setSticky machine.heap ref
  typed.of_sameArrays rewrites.toSameShapes rewrites.toSameCounts (.setSticky _ ref)

theorem modifyFields (ref : Ref) {change : Fields → Fields}
    (size : ∀ fields, (change fields).size = fields.size) :
    (machine.modifyHeap fun heap => heap.modifyFields ref change).Typed :=
  have rewrites := Heap.Rewrites.modifyFields machine.heap ref size
  typed.of_sameArrays rewrites.toSameShapes rewrites.toSameCounts (.modifyFields _ ref change)

/-- Elements are written that suit the array. -/
theorem modifyArray (target : Ref) {change : ArrayData → ArrayData}
    (size : ∀ data, (change data).byteSize = data.byteSize)
    (kind : ∀ data, (change data).kind = data.kind)
    (suits : ∀ cls data ref, machine.heap.class? target = some cls →
      machine.heap.array? target = some data → (change data).Contains ref →
        machine.heap.Suits machine.registry.toClassTable cls ref) :
    (machine.modifyHeap fun heap => heap.modifyArray target change).Typed :=
  have rewrites := Heap.Rewrites.modifyArray machine.heap target size kind
  typed.of_turn (.keeps rewrites.toSameShapes rewrites.toSameCounts)
    (typed.suited.modifyArray suits)

/-- What an array holds is reached if the array is, so a collection takes no element from an array
that it leaves. -/
theorem collectGarbage : machine.collectGarbage.2.Typed := by
  suffices suited : machine.collectGarbage.2.heap.Suited machine.registry.toClassTable from
    typed.of_turn machine.turn_collectGarbage suited
  have unmarked := typed.balanced.unmarked
  intro array cls data ref live held contains
  obtain ⟨object, found, body⟩ := Heap.array?_eq_some_iff.mp held
  rw [Heap.class?, found, Option.map_some, Option.some.injEq] at live
  subst live
  obtain ⟨there, reached⟩ := (get?_collectGarbage unmarked array object).mp found
  have suits := typed.suited array object.cls data ref (congrArg (Option.map _) there)
    (Heap.array?_eq_some_iff.mpr ⟨object, there, body⟩) contains
  obtain ⟨elements, rfl, member⟩ := contains
  have further : machine.Reachable ref :=
    .edge reached there (.element (Object.array?_eq_some_iff.mp body) member)
  refine suits.of_classes fun cls live => ?_
  obtain ⟨element, here, rfl⟩ := Option.map_eq_some_iff.mp live
  exact congrArg (Option.map _) ((get?_collectGarbage unmarked ref element).mpr ⟨here, further⟩)

/-- An object comes in whose elements suit it. -/
theorem insert {object : Object} (drawn : Nat) (fits : machine.heap.fits object.size = true)
    (fresh : object.marked = false)
    (suits : ∀ data ref, object.array? = some data → data.Contains ref →
      machine.heap.Suits machine.registry.toClassTable object.cls ref) :
    { machine with heap := (Heap.insert { machine.heap with drawn } object).2 }.Typed := by
  have seeded : { machine with heap := { machine.heap with drawn } }.Typed :=
    typed.of_objects rfl rfl rfl ⟨rfl, rfl, rfl⟩
  refine seeded.of_turn (.insert fits fresh) ?_
  have kept (ref : Ref) (cls : ClassId) (live : machine.heap.class? ref = some cls) :
      (Heap.insert { machine.heap with drawn } object).2.class? ref = some cls := by
    obtain ⟨other, there, rfl⟩ := Option.map_eq_some_iff.mp live
    exact congrArg (Option.map _)
      (Heap.get?_insert_of_live seeded.balanced.toAccounted there object)
  intro array cls data ref live held contains
  obtain ⟨other, found, body⟩ := Heap.array?_eq_some_iff.mp held
  rw [Heap.class?, found, Option.map_some, Option.some.injEq] at live
  subst live
  refine Heap.Suits.of_classes ?_ fun cls => kept ref cls
  rcases Heap.eq_or_held_of_insert found with rfl | before
  · exact suits data ref body contains
  · exact typed.suited array other.cls data ref (congrArg (Option.map _) before)
      (Heap.array?_eq_some_iff.mpr ⟨other, before, body⟩) contains

/-! ### Classes -/

/-- Classes are linked, and those that were there go on. -/
theorem of_ranked {registry : Registry} (ranked : registry.Ranked)
    (path : registry.path = machine.registry.path)
    (string : ∀ name id, machine.registry.find? name = some id → registry.find? name = some id)
    (keeps : machine.registry.KeepsFixed registry.toClassTable) : { machine with registry }.Typed :=
  ⟨⟨typed.balanced, typed.small⟩, ranked, path ▸ typed.plain, string _ _ typed.string,
    typed.suited.keep typed.ranked keeps⟩

theorem of_sameFixed {registry : Registry} (path : registry.path = machine.registry.path)
    (same : machine.registry.SameFixed registry.toClassTable) : { machine with registry }.Typed :=
  typed.of_ranked (same.ranked typed.ranked) path
    (fun name _ found => (same.found name).trans found) same.keepsFixed

theorem modifyClass (id : ClassId) {change : Class → Class}
    (fixed : ∀ cls : Class, (change cls).fixed = cls.fixed) :
    (machine.modifyClass id change).Typed :=
  typed.of_sameFixed rfl (.modify machine.registry.toClassTable id fixed)

theorem answer (request : Request)
    (accepted : request.Accepted machine.registry.Grants machine.registry.toClassTable) :
    { machine with registry := (machine.registry.answer request).2 }.Typed := by
  have prefixes := machine.registry.prefixes_answer request
  exact typed.of_ranked (Registry.ranked_answer typed.plain typed.ranked accepted)
    (Registry.path_answer request) prefixes.names prefixes.keepsFixed

theorem load (name : String) : { machine with registry := (machine.registry.load name).2 }.Typed :=
  typed.answer (.load name) trivial

/-- The array class of a component is loaded by its name. -/
theorem arrayOf (component : ClassId) :
    { machine with registry := (machine.registry.arrayOf component).2 }.Typed :=
  typed.load _

end Typed

end Machine

end Jvm
