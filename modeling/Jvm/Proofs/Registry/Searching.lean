import Mathlib.Data.List.Pairwise
import Jvm.Proofs.Registry.Lookups
import Jvm.Proofs.Registry.Members
import Jvm.Proofs.Registry.Reaching
import Jvm.Proofs.Registry.Sorting

/-!
# The order in which members are searched

The interfaces of a class are gathered breadth first: those that its superclass chain names,
then those that these name, and so on. So of two interfaces the one that is gathered first is
never farther away. A method with a body is taken from the first interface that has one, and
where two have one, the nearer wins, which need not be the more specific one.

A field is searched in the class, then in all its interfaces, those of its superclasses
included, and only then in the superclasses.
-/

namespace Jvm

open ClassTable

namespace ClassTable

variable {table : ClassTable}

/-! ## Breadth first -/

/-- Whether an interface is so many steps away from some that are given. -/
inductive Steps (table : ClassTable) (start : List ClassId) : Nat → ClassId → Prop
  | start {iface : ClassId} (member : iface ∈ start) : Steps table start 0 iface
  | up {count : Nat} {lower iface : ClassId} (steps : Steps table start count lower)
      (declared : table.Declares lower iface) : Steps table start (count + 1) iface

/-- Whether an interface is reached in no more steps than another one. -/
def NoFarther (table : ClassTable) (start : List ClassId) (first second : ClassId) : Prop :=
  ∀ count, table.Steps start count second → ∃ fewer ≤ count, table.Steps start fewer first

/-- What is known while the interfaces of one level are visited: those seen are in order and
no farther than this level, and what is queued is the rest of this level, then of the next. -/
structure Frontier (table : ClassTable) (start : List ClassId) (level : Nat)
    (current next seen : List ClassId) : Prop where
  order : seen.Pairwise (table.NoFarther start)
  visited : ∀ iface ∈ seen, ∃ count ≤ level, table.Steps start count iface
  near : ∀ iface ∈ current, table.Steps start level iface
  far : ∀ iface ∈ next, table.Steps start (level + 1) iface
  below : ∀ count < level, ∀ iface, table.Steps start count iface → iface ∈ seen
  here : ∀ iface, table.Steps start level iface → iface ∈ seen ++ current
  upTo : table.UpTo (current ++ next) seen

namespace Frontier

variable {start current next seen : List ClassId} {level : Nat}

/-- At first, nothing is seen and all that is given is queued. -/
theorem initial (table : ClassTable) (start : List ClassId) :
    table.Frontier start 0 start [] [] where
  order := .nil
  visited _ member := nomatch member
  near _ member := .start member
  far _ member := nomatch member
  below _ few := absurd few (Nat.not_lt_zero _)
  here
    | _, .start member => member
  upTo _ member := nomatch member

/-- Once a level is visited, the next one begins. -/
theorem advance (frontier : table.Frontier start level [] next seen) :
    table.Frontier start (level + 1) next [] seen where
  order := frontier.order
  visited iface member := by
    obtain ⟨count, few, steps⟩ := frontier.visited iface member
    exact ⟨count, Nat.le_succ_of_le few, steps⟩
  near := frontier.far
  far _ member := nomatch member
  below count few iface steps := by
    rcases Nat.lt_succ_iff_lt_or_eq.mp few with fewer | rfl
    · exact frontier.below count fewer iface steps
    · exact List.append_nil seen ▸ frontier.here iface steps
  here iface steps := by
    cases steps with
    | @up _ lower _ steps declared =>
        have visited := frontier.here lower steps
        rw [List.append_nil] at visited
        exact List.mem_append.mpr (frontier.upTo lower visited iface declared)
  upTo id member iface declared := by
    rw [List.append_nil]
    exact frontier.upTo id member iface declared

/-- Some level has the interface that comes first in the queue. -/
theorem exists_head {head : ClassId} {queue : List ClassId}
    (frontier : table.Frontier start level current next seen)
    (queued : current ++ next = head :: queue) :
    ∃ level current next, table.Frontier start level (head :: current) next seen ∧
      queue = current ++ next := by
  cases current with
  | nil =>
      cases queued
      exact ⟨level + 1, queue, [], frontier.advance, (List.append_nil _).symm⟩
  | cons first rest =>
      cases queued
      exact ⟨level, rest, next, frontier, rfl⟩

/-- An interface that is seen already is passed over. -/
theorem skip {head : ClassId} (frontier : table.Frontier start level (head :: current) next seen)
    (known : head ∈ seen) : table.Frontier start level current next seen where
  order := frontier.order
  visited := frontier.visited
  near iface member := frontier.near iface (.tail _ member)
  far := frontier.far
  below := frontier.below
  here iface steps := by
    rcases List.mem_append.mp (frontier.here iface steps) with old | queued
    · exact List.mem_append_left _ old
    · rcases List.mem_cons.mp queued with rfl | later
      · exact List.mem_append_left _ known
      · exact List.mem_append_right _ later
  upTo id member iface declared := by
    rcases frontier.upTo id member iface declared with old | queued
    · exact .inl old
    · rcases List.mem_cons.mp queued with rfl | later
      · exact .inl known
      · exact .inr later

/-- One that is not seen yet is no nearer than those that are, since all that is nearer than
this level is seen. -/
theorem visit {head : ClassId} (frontier : table.Frontier start level (head :: current) next seen)
    (fresh : head ∉ seen) :
    table.Frontier start level current (next ++ (table.get head).interfaces) (seen ++ [head]) where
  order := by
    refine List.pairwise_append.mpr ⟨frontier.order, List.pairwise_singleton _ _, ?_⟩
    intro first member second last count steps
    cases List.mem_singleton.mp last
    obtain ⟨fewer, within, reached⟩ := frontier.visited first member
    have least : level ≤ count := Nat.le_of_not_lt fun few =>
      fresh (frontier.below count few head steps)
    exact ⟨fewer, Nat.le_trans within least, reached⟩
  visited iface member := by
    rcases List.mem_append.mp member with old | new
    · exact frontier.visited iface old
    · cases List.mem_singleton.mp new
      exact ⟨level, Nat.le_refl _, frontier.near head (.head _)⟩
  near iface member := frontier.near iface (.tail _ member)
  far iface member := by
    rcases List.mem_append.mp member with old | new
    · exact frontier.far iface old
    · exact .up (frontier.near head (.head _)) new
  below count few iface steps := List.mem_append_left _ (frontier.below count few iface steps)
  here iface steps := by
    rw [List.append_assoc]
    exact frontier.here iface steps
  upTo id member iface declared := by
    rw [← List.append_assoc]
    rcases List.mem_append.mp member with old | new
    · rcases frontier.upTo id old iface declared with earlier | queued
      · exact .inl (List.mem_append_left _ earlier)
      · rcases List.mem_cons.mp queued with rfl | later
        · exact .inl (List.mem_append_right _ (.head _))
        · exact .inr (List.mem_append_left _ later)
    · cases List.mem_singleton.mp new
      exact .inr (List.mem_append_right _ declared)

end Frontier

/-- What is gathered is in order, whatever fuel there is. -/
theorem pairwise_gatherInterfaces {start : List ClassId} {fuel : Nat} {queue seen : List ClassId}
    {level : Nat} {current next : List ClassId} (queued : current ++ next = queue)
    (frontier : table.Frontier start level current next seen) :
    (table.gatherInterfaces fuel queue seen).Pairwise (table.NoFarther start) := by
  induction fuel, queue, seen using gatherInterfaces.induct table
    generalizing level current next with
  | case1 fuel seen =>
      rw [gatherInterfaces.eq_def]
      exact frontier.order
  | case2 fuel head queue seen known ih =>
      rw [gatherInterfaces.eq_def]
      simp only [if_pos known]
      obtain ⟨level, current, next, frontier, rest⟩ := frontier.exists_head queued
      exact ih rest.symm (frontier.skip known)
  | case3 head queue seen fresh =>
      rw [gatherInterfaces, if_neg fresh]
      exact frontier.order
  | case4 head queue seen fresh fuel ih =>
      rw [gatherInterfaces, if_neg fresh]
      obtain ⟨level, current, next, frontier, rest⟩ := frontier.exists_head queued
      refine ih ?_ (frontier.visit fresh)
      rw [rest, List.append_assoc]

/-- Interfaces that the superclass chain of a class names. -/
def chainInterfaces (table : ClassTable) (id : ClassId) : List ClassId :=
  (table.superChain id).flatMap fun above => (table.get above).interfaces

/-- The interfaces of a class are in breadth-first order. -/
theorem pairwise_allInterfaces (table : ClassTable) (id : ClassId) :
    (table.allInterfaces id).Pairwise (table.NoFarther (table.chainInterfaces id)) :=
  pairwise_gatherInterfaces (List.append_nil _) (.initial table _)

/-- They are those some steps away from the ones that the superclass chain names. -/
theorem mem_allInterfaces_iff_steps (closed : table.Closed) {id iface : ClassId}
    (known : table.Has id) :
    iface ∈ table.allInterfaces id ↔ ∃ count, table.Steps (table.chainInterfaces id) count iface := by
  rw [mem_allInterfaces_iff (fun id known => (closed.classes id known).interfaces) known]
  constructor
  · rintro ⟨above, member, first, declared, reached⟩
    induction reached with
    | refl => exact ⟨0, .start (List.mem_flatMap.mpr ⟨above, member, declared⟩)⟩
    | tail _ further ih =>
        obtain ⟨count, steps⟩ := ih
        exact ⟨count + 1, .up steps further⟩
  · rintro ⟨count, steps⟩
    induction steps with
    | start member =>
        obtain ⟨above, member, declared⟩ := List.mem_flatMap.mp member
        exact ⟨above, member, _, declared, .refl⟩
    | up _ declared ih =>
        obtain ⟨above, member, first, declares, reached⟩ := ih
        exact ⟨above, member, first, declares, reached.tail declared⟩

/-! ## Default methods -/

/-- Whether a class declares a method with a body. -/
def HasBody (table : ClassTable) (name descriptor : String) (id : ClassId) : Prop :=
  ∃ method, table.declaredMethod? name descriptor id = some method ∧
    (table.method method).isAbstract = false

theorem owner_of_declaredMethod? (closed : table.Closed) {name descriptor : String} {id : ClassId}
    (known : table.Has id) {method : MethodId}
    (found : table.declaredMethod? name descriptor id = some method) : method.owner = id := by
  rw [declaredMethod?, Class.declaredMethod?, Option.map_eq_some_iff] at found
  obtain ⟨index, -, rfl⟩ := found
  exact closed.ids id known

/-- What is looked up in interfaces and has a body is the first with a body. -/
theorem lookupMethod_eq_some {id : ClassId} {name descriptor : String} {method : MethodId}
    (undeclared : ∀ above ∈ table.superChain id,
      table.declaredMethod? name descriptor above = none)
    (found : table.lookupMethod id name descriptor = some method)
    (body : (table.method method).isAbstract = false) :
    ∃ before owner after, table.allInterfaces id = before ++ owner :: after ∧
      table.declaredMethod? name descriptor owner = some method ∧
      ∀ iface ∈ before, ¬table.HasBody name descriptor iface := by
  rw [lookupMethod, List.findSome?_eq_none_iff.mpr undeclared] at found
  dsimp only at found
  have first : ((table.allInterfaces id).filterMap (table.declaredMethod? name descriptor)).find?
      (fun method => !(table.method method).isAbstract) = some method := by
    rcases Option.or_eq_some_iff.mp found with first | ⟨missing, head⟩
    · exact first
    · have abstract := List.find?_eq_none.mp missing method (List.mem_of_head? head)
      rw [body] at abstract
      exact absurd rfl abstract
  obtain ⟨-, bodiless, others, split, passed⟩ := List.find?_eq_some_iff_append.mp first
  obtain ⟨before, rest, whole, passed', last⟩ := List.filterMap_eq_append_iff.mp split
  obtain ⟨skipped, owner, after, rfl, none, declared, -⟩ := List.filterMap_eq_cons_iff.mp last
  refine ⟨before ++ skipped, owner, after, ?_, declared, ?_⟩
  · rw [whole, List.append_assoc]
  · rintro iface member ⟨other, here, full⟩
    rcases List.mem_append.mp member with early | late
    · have abstract := passed other (passed' ▸ List.mem_filterMap.mpr ⟨iface, early, here⟩)
      rw [full] at abstract
      exact absurd abstract (by decide)
    · cases here.symm.trans (none iface late)

/-! ## Fields -/

/-- The field that a class declares itself, with the class. -/
def ownField? (table : ClassTable) (name descriptor : String) (id : ClassId) :
    Option (ClassId × Field) :=
  ((table.get id).declaredField? name descriptor).map fun field => (id, field)

theorem fieldOf?_eq_or (table : ClassTable) (name descriptor : String) (id : ClassId) :
    table.fieldOf? name descriptor id = (table.ownField? name descriptor id).or
      ((table.allInterfaces id).findSome? (table.ownField? name descriptor)) := by
  rw [fieldOf?, List.findSome?_cons, ownField?]
  cases (table.get id).declaredField? name descriptor <;> rfl

theorem superChain_subset {id above : ClassId} (member : above ∈ table.superChain id) :
    table.superChain above ⊆ table.superChain id := by
  induction id using superChain.induct table with
  | case1 id top =>
      have same : above = id := by
        rw [superChain, top] at member
        exact List.mem_singleton.mp member
      exact same ▸ List.Subset.refl _
  | case2 id next found ih =>
      have chain : table.superChain id = id :: table.superChain next := by
        rw [superChain, found]
      rw [chain] at member
      rcases List.mem_cons.mp member with rfl | further
      · exact List.Subset.refl _
      · rw [chain]
        exact List.subset_cons_of_subset _ (ih further)

/-- A class has the interfaces of its superclasses. -/
theorem allInterfaces_subset (closed : table.Closed) {id above : ClassId} (known : table.Has id)
    (member : above ∈ table.superChain id) :
    table.allInterfaces above ⊆ table.allInterfaces id := by
  intro iface implemented
  have inside := fun id known => (closed.classes id known).interfaces
  rw [mem_allInterfaces_iff inside (has_of_mem_superChain closed known member)] at implemented
  obtain ⟨upper, further, reached⟩ := implemented
  exact (mem_allInterfaces_iff inside known).mpr ⟨upper, superChain_subset member further, reached⟩

/-- A field is searched in the class, then in all its interfaces, nearest first, and then in
its superclasses: by the time that one of these is searched, its interfaces have been. -/
theorem lookupField_eq_or (closed : table.Closed) {id : ClassId} (known : table.Has id)
    (name descriptor : String) :
    table.lookupField id name descriptor = (table.ownField? name descriptor id).or
      (((table.allInterfaces id).findSome? (table.ownField? name descriptor)).or
        ((table.superChain id).findSome? (table.ownField? name descriptor))) := by
  obtain ⟨above, chain⟩ := table.superChain_eq_cons id
  rw [lookupField, chain, List.findSome?_cons, List.findSome?_cons, fieldOf?_eq_or]
  cases own : table.ownField? name descriptor id with
  | some result => rfl
  | none =>
      cases inherited : (table.allInterfaces id).findSome? (table.ownField? name descriptor) with
      | some result => rfl
      | none =>
          simp only [Option.none_or]
          refine Resembles.findSome?_congr fun upper member => ?_
          have within := allInterfaces_subset closed known (chain ▸ List.mem_cons_of_mem _ member)
          have missing : (table.allInterfaces upper).findSome? (table.ownField? name descriptor) =
              none :=
            List.findSome?_eq_none_iff.mpr fun iface implemented =>
              List.findSome?_eq_none_iff.mp inherited iface (within implemented)
          rw [fieldOf?_eq_or, missing, Option.or_none]

/-- So a field of an interface hides those of superclasses, also if the class has the
interface from a superclass that hides the field of the interface itself. -/
theorem lookupField_of_interface (closed : table.Closed) {id iface : ClassId}
    (known : table.Has id) {name descriptor : String}
    (undeclared : (table.get id).declaredField? name descriptor = none)
    (implemented : iface ∈ table.allInterfaces id) {field : Field}
    (declared : (table.get iface).declaredField? name descriptor = some field) :
    ∃ owner ∈ table.allInterfaces id, ∃ found,
      table.lookupField id name descriptor = some (owner, found) := by
  have own : table.ownField? name descriptor id = none := by
    rw [ownField?, undeclared]
    rfl
  obtain ⟨⟨owner, found⟩, first⟩ : ∃ result,
      (table.allInterfaces id).findSome? (table.ownField? name descriptor) = some result := by
    refine Option.isSome_iff_exists.mp (List.findSome?_isSome_iff.mpr ⟨iface, implemented, ?_⟩)
    rw [ownField?, declared]
    rfl
  obtain ⟨other, member, here⟩ := List.exists_of_findSome?_eq_some first
  have same : other = owner := by
    obtain ⟨_, -, same⟩ := Option.map_eq_some_iff.mp here
    exact congrArg Prod.fst same
  refine ⟨owner, same ▸ member, found, ?_⟩
  rw [lookupField_eq_or closed known, own, first]
  rfl

end ClassTable

namespace Registry

variable {path : ClassPath} {registry : Registry}

/-- Of the default methods of a class the first in breadth-first order is selected: if no class
on the superclass chain declares a method of this name and descriptor and the one that is
found has a body, then it is declared in an interface of the class such that none that is
gathered before has one with a body, and of all that have one none is nearer. -/
theorem lookupMethod_default (serves : registry.Serves (fun _ => True) path) {id : ClassId}
    (known : registry.Has id) {name descriptor : String}
    (undeclared : ∀ above ∈ registry.superChain id,
      registry.declaredMethod? name descriptor above = none)
    {method : MethodId} (found : registry.lookupMethod id name descriptor = some method)
    (body : (registry.method method).isAbstract = false) :
    registry.declaredMethod? name descriptor method.owner = some method ∧
      (∃ before after, registry.allInterfaces id = before ++ method.owner :: after ∧
        ∀ iface ∈ before, ¬registry.HasBody name descriptor iface) ∧
      ∀ iface, registry.HasBody name descriptor iface →
        registry.NoFarther (registry.chainInterfaces id) method.owner iface := by
  have closed := serves.closed.table
  obtain ⟨before, owner, after, whole, declared, bodiless⟩ :=
    lookupMethod_eq_some undeclared found body
  have inside : registry.Has owner :=
    has_of_mem_allInterfaces closed known (whole ▸ List.mem_append_right _ (.head _))
  have own := owner_of_declaredMethod? closed inside declared
  subst own
  refine ⟨declared, ⟨before, after, whole, bodiless⟩, fun iface full count steps => ?_⟩
  have order := registry.pairwise_allInterfaces id
  have member := (mem_allInterfaces_iff_steps closed known).mpr ⟨count, steps⟩
  rw [whole] at order member
  rcases List.mem_append.mp member with early | late
  · exact absurd full (bodiless iface early)
  · rcases List.mem_cons.mp late with rfl | later
    · exact ⟨count, Nat.le_refl _, steps⟩
    · exact (List.pairwise_cons.mp (List.pairwise_append.mp order).2.1).1 iface later count steps

/-- An interface with a default method. -/
def upperOutline : ClassFile.Outline where
  flags := 0x601
  name := "demo/I"
  methods := [⟨Access.isPublic, "f", "()I"⟩]

/-- One that extends it and overrides the method. -/
def lowerOutline : ClassFile.Outline where
  flags := 0x601
  name := "demo/J"
  interfaces := ["demo/I"]
  methods := [⟨Access.isPublic, "f", "()I"⟩]

/-- A class that names both, the upper one first. -/
def bothOutline : ClassFile.Outline where
  flags := 0x21
  name := "demo/C"
  interfaces := ["demo/I", "demo/J"]

/-- A registry with the three. The methods return one and two. -/
def defaulted : Registry :=
  ofFiles [ClassFile.Outline.root.bytes [], upperOutline.bytes [0x04, 0xAC],
    lowerOutline.bytes [0x05, 0xAC], bothOutline.bytes []]

theorem exists_defaulted : ∃ root upper lower both : Class,
    defaulted.Holds [objectName, "demo/I", "demo/J", "demo/C"] [root, upper, lower, both] ∧
      ClassFile.Outline.root.Links ⟨0⟩ none [] root ∧ upperOutline.Links ⟨1⟩ (some root) [] upper ∧
      lowerOutline.Links ⟨2⟩ (some root) [⟨1⟩] lower ∧
      bothOutline.Links ⟨3⟩ (some root) [⟨1⟩, ⟨2⟩] both := by
  obtain ⟨root, top, first⟩ := (holds_ofPath {}).define .root [] none [] (by decide +kernel)
    (by decide +kernel) List.not_mem_nil ⟨rfl, .nil⟩
  have object := first.knows 0 objectName rfl top.flags
  obtain ⟨upper, one, second⟩ := first.define upperOutline [0x04, 0xAC] (some ⟨0⟩) []
    (by decide +kernel) (by decide +kernel) (by decide) ⟨object, .nil⟩
  have object := second.knows 0 objectName rfl top.flags
  have interface := second.knows 1 "demo/I" rfl one.flags
  obtain ⟨lower, two, third⟩ := second.define lowerOutline [0x05, 0xAC] (some ⟨0⟩) [⟨1⟩]
    (by decide +kernel) (by decide +kernel) (by decide) ⟨object, .cons interface .nil⟩
  have object := third.knows 0 objectName rfl top.flags
  have interface := third.knows 1 "demo/I" rfl one.flags
  have extended := third.knows 2 "demo/J" rfl two.flags
  obtain ⟨both, three, fourth⟩ := third.define bothOutline [] (some ⟨0⟩) [⟨1⟩, ⟨2⟩]
    (by decide +kernel) (by decide +kernel) (by decide)
    ⟨object, .cons interface (.cons extended .nil)⟩
  rw [Option.map_some, first.get] at one
  rw [Option.map_some, second.get] at two
  rw [Option.map_some, third.get] at three
  exact ⟨root, upper, lower, both, fourth, top, one, two, three⟩

/-- The class has both interfaces, the upper one first, and each declares the method. -/
theorem searches_defaulted :
    defaulted.superChain ⟨3⟩ = [⟨3⟩, ⟨0⟩] ∧ defaulted.allInterfaces ⟨3⟩ = [⟨1⟩, ⟨2⟩] ∧
      defaulted.Declares ⟨2⟩ ⟨1⟩ ∧
      (∀ above ∈ defaulted.superChain ⟨3⟩, defaulted.declaredMethod? "f" "()I" above = none) ∧
      ∀ iface ∈ defaulted.allInterfaces ⟨3⟩,
        defaulted.declaredMethod? "f" "()I" iface = some ⟨iface, 0⟩ ∧
          Signature.ofMethod (defaulted.method ⟨iface, 0⟩) = ⟨Access.isPublic, "f", "()I"⟩ ∧
          (defaulted.method ⟨iface, 0⟩).isAbstract = false := by
  obtain ⟨root, upper, lower, both, holds, top, one, two, three⟩ := exists_defaulted
  have first : defaulted.get ⟨0⟩ = root := holds.get 0
  have second : defaulted.get ⟨1⟩ = upper := holds.get 1
  have third : defaulted.get ⟨2⟩ = lower := holds.get 2
  have fourth : defaulted.get ⟨3⟩ = both := holds.get 3
  have size : defaulted.size = 4 := holds.size
  generalize defaulted = registry at *
  have chain : registry.superChain ⟨3⟩ = [⟨3⟩, ⟨0⟩] := by
    have up : registry.superclass? ⟨3⟩ = some ⟨0⟩ := by
      rw [superclass?, fourth, three.superclass_eq, Option.map_some, top.id_eq]
      rfl
    have ends : registry.superclass? ⟨0⟩ = none := by
      rw [superclass?, first, top.superclass_eq]
      rfl
    rw [superChain, up]
    simp only
    rw [superChain, ends]
  have gathered : registry.allInterfaces ⟨3⟩ = [⟨1⟩, ⟨2⟩] := by
    simp [allInterfaces, chain, size, gatherInterfaces, first, second, third, fourth,
      top.interfaces_eq, one.interfaces_eq, two.interfaces_eq, three.interfaces_eq]
  have body {method : Method}
      (same : Signature.ofMethod method = ⟨Access.isPublic, "f", "()I"⟩) :
      method.isAbstract = false := by
    rw [Method.isAbstract, show method.flags = Access.isPublic from congrArg Signature.flags same]
    decide
  rw [gathered, chain]
  refine ⟨rfl, rfl, ?_, ?_, ?_⟩
  · rw [Declares, third, two.interfaces_eq]
    exact .head _
  · rintro above (_ | ⟨_, _ | ⟨_, ⟨⟩⟩⟩)
    · rw [declaredMethod?, fourth, three.declaredMethod?]
      rfl
    · rw [declaredMethod?, first, top.declaredMethod?]
      rfl
  · rintro iface (_ | ⟨_, _ | ⟨_, ⟨⟩⟩⟩)
    · rw [declaredMethod?, method, second, one.declaredMethod?]
      exact ⟨rfl, one.ofMethod 0 rfl, body (one.ofMethod 0 rfl)⟩
    · rw [declaredMethod?, method, third, two.declaredMethod?]
      exact ⟨rfl, two.ofMethod 0 rfl, body (two.ofMethod 0 rfl)⟩

theorem lookupMethod_defaulted : defaulted.lookupMethod ⟨3⟩ "f" "()I" = some ⟨⟨1⟩, 0⟩ := by
  obtain ⟨chain, gathered, -, undeclared, declared⟩ := searches_defaulted
  rw [gathered] at declared
  have upper := declared ⟨1⟩ (.head _)
  have lower := declared ⟨2⟩ (.tail _ (.head _))
  rw [lookupMethod, List.findSome?_eq_none_iff.mpr undeclared, gathered]
  simp [upper.1, upper.2.2]

/-- The class has no method of its own, and the one found is that of the upper interface. -/
theorem lookupMethod_default_defaulted :
    defaulted.Serves (fun _ => True) {} ∧ defaulted.Has ⟨3⟩ ∧
      ∃ before after, defaulted.allInterfaces ⟨3⟩ = before ++ ⟨1⟩ :: after ∧
        ∀ iface ∈ before, ¬defaulted.HasBody "f" "()I" iface := by
  obtain ⟨chain, gathered, -, undeclared, declared⟩ := searches_defaulted
  obtain ⟨_, _, _, _, holds, -⟩ := exists_defaulted
  have known : defaulted.Has ⟨3⟩ := holds.has_iff.mpr (by decide)
  have body := (declared ⟨1⟩ (gathered ▸ .head _)).2.2
  have selected := lookupMethod_default (serves_ofFiles _) known undeclared lookupMethod_defaulted body
  exact ⟨serves_ofFiles _, known, selected.2.1⟩

/-- So the default method that is found need not be the most specific one: the lower interface
extends the upper one and overrides its method, but the class names the upper one first. -/
theorem lookupMethod_unspecific :
    defaulted.Serves (fun _ => True) {} ∧ defaulted.Has ⟨3⟩ ∧
      (∀ above ∈ defaulted.superChain ⟨3⟩, defaulted.declaredMethod? "f" "()I" above = none) ∧
      (∃ method, defaulted.lookupMethod ⟨3⟩ "f" "()I" = some method ∧
        (defaulted.method method).isAbstract = false ∧ method.owner = ⟨1⟩) ∧
      ⟨2⟩ ∈ defaulted.allInterfaces ⟨3⟩ ∧ defaulted.Declares ⟨2⟩ ⟨1⟩ ∧
      defaulted.HasBody "f" "()I" ⟨2⟩ := by
  obtain ⟨chain, gathered, extended, undeclared, declared⟩ := searches_defaulted
  obtain ⟨_, _, _, _, holds, -⟩ := exists_defaulted
  rw [gathered] at declared
  have lower := declared ⟨2⟩ (.tail _ (.head _))
  refine ⟨serves_ofFiles _, holds.has_iff.mpr (by decide), undeclared,
    ⟨_, lookupMethod_defaulted, (declared ⟨1⟩ (.head _)).2.2, rfl⟩, ?_, extended,
    _, lower.1, lower.2.2⟩
  rw [gathered]
  exact .tail _ (.head _)

end Registry

end Jvm

/-!
## Selections that are remembered

A registry remembers which method a call on a receiver class selects, for as long as it
lasts. What it remembers is what it would select, and this stays so whatever is linked later,
whether that succeeds or fails: a selection depends on the classes above the receiver, which
were linked before it.
-/

namespace Jvm.Registry

open ClassTable

variable {path : ClassPath} {before registry after : Registry}

/-- A registry that has forgotten its selections. -/
def forgetful (registry : Registry) : Registry := { registry with selected := {} }

theorem selected_answer (registry : Registry) (request : Request) :
    (registry.answer request).2.selected = registry.selected := by
  rw [answer_eq, link]
  split <;> rfl

/-- Whether everything that a registry remembers is of known classes and is what it would
select. -/
structure Recalls (registry : Registry) : Prop where
  closed : registry.Closed
  known : ∀ receiver resolved target, registry.selected[(receiver, resolved)]? = some target →
    registry.Has receiver ∧ registry.HasMethod resolved
  exact : ∀ receiver resolved target, registry.selected[(receiver, resolved)]? = some target →
    registry.select? receiver resolved = some target

namespace Recalls

/-- A registry that remembers nothing recalls nothing wrong. -/
theorem of_empty (closed : registry.toClassTable.Closed) (empty : registry.selected = {}) :
    registry.Recalls := by
  have none (key : ClassId × MethodId) (target : MethodId) :
      registry.selected[key]? ≠ some target := by
    rw [empty, Std.HashMap.getElem?_empty]
    exact nofun
  exact ⟨⟨closed, fun key target held => absurd held (none key target)⟩,
    fun _ _ target held => absurd held (none _ target),
    fun _ _ target held => absurd held (none _ target)⟩

/-- What is remembered is what is selected. -/
theorem resolveVirtual (recalls : registry.Recalls) (receiver : ClassId) (resolved : MethodId) :
    (registry.resolveVirtual receiver resolved).1 = registry.select? receiver resolved := by
  rw [Registry.resolveVirtual]
  split
  next target held => exact (recalls.exact receiver resolved target held).symm
  next =>
      split
      next target selected => exact selected.symm
      next none => exact none.symm

/-- A selection is remembered as what it is. -/
theorem select (recalls : registry.Recalls) {receiver : ClassId} {resolved : MethodId}
    (inside : registry.Has receiver) (linked : registry.HasMethod resolved) :
    (registry.resolveVirtual receiver resolved).2.Recalls := by
  have closed := (recalls.closed.resolveVirtual inside linked).2.1
  rw [Registry.resolveVirtual] at closed ⊢
  split
  next => exact recalls
  next missing =>
      simp only [missing] at closed
      split
      next target selected =>
          simp only [selected] at closed
          have kept {other : ClassId} {method found : MethodId}
              (held : (registry.selected.insert (receiver, resolved) target)[(other, method)]? =
                some found) :
              (receiver = other ∧ resolved = method ∧ target = found) ∨
                registry.selected[(other, method)]? = some found := by
            rw [Std.HashMap.getElem?_insert] at held
            split at held
            next same =>
                cases held
                cases eq_of_beq same
                exact .inl ⟨rfl, rfl, rfl⟩
            next => exact .inr held
          refine ⟨closed, fun other method found held => ?_, fun other method found held => ?_⟩
          · rcases kept held with ⟨rfl, rfl, rfl⟩ | earlier
            · exact ⟨inside, linked⟩
            · exact recalls.known other method found earlier
          · rcases kept held with ⟨rfl, rfl, rfl⟩ | earlier
            · exact selected
            · exact recalls.exact other method found earlier
      next => exact recalls

/-- Nothing that is remembered goes stale while classes are linked. -/
theorem of_resembles (recalls : before.Recalls)
    (same : before.toClassTable.Resembles after.toClassTable) (closed : after.Closed)
    (selected : after.selected = before.selected) : after.Recalls where
  closed := closed
  known receiver resolved target held := by
    rw [selected] at held
    obtain ⟨inside, linked⟩ := recalls.known receiver resolved target held
    exact ⟨same.has inside, same.growsTo.hasMethod linked⟩
  exact receiver resolved target held := by
    rw [selected] at held
    obtain ⟨inside, linked⟩ := recalls.known receiver resolved target held
    rw [same.select? recalls.closed.table inside linked]
    exact recalls.exact receiver resolved target held

theorem answer (recalls : before.Recalls) (request : Request) :
    (before.answer request).2.Recalls :=
  recalls.of_resembles (.of_prefixes (before.prefixes_answer request))
    (closed_answer recalls.closed request) (before.selected_answer request)

end Recalls

/-! ## Runs -/

/-- What may be asked of a registry: to load or link a class, or to select the target of a call. -/
inductive Call where
  | ask (request : Request)
  | select (receiver : ClassId) (resolved : MethodId)

/-- Whether the ids in a call are ones that the registry handed out. -/
def Call.Accepted (registry : Registry) : Call → Prop
  | .ask request => request.Accepted (fun _ => True) registry.toClassTable
  | .select receiver resolved => registry.Has receiver ∧ registry.HasMethod resolved

/-- What a call leaves. -/
def perform (registry : Registry) : Call → Registry
  | .ask request => (registry.answer request).2
  | .select receiver resolved => (registry.resolveVirtual receiver resolved).2

/-- Whether a registry has come about by calls in any order. -/
def Called (path : ClassPath) : Registry → Prop :=
  Relation.ReflTransGen (fun before after => ∃ call : Call,
    call.Accepted before ∧ after = before.perform call) (ofPath path)

theorem Called.recalls (called : registry.Called path) : registry.Recalls := by
  induction called with
  | refl => exact .of_empty (closed_ofPath path).table rfl
  | tail _ step ih =>
      obtain ⟨call, accepted, rfl⟩ := step
      cases call with
      | ask request => exact ih.answer request
      | select receiver resolved => exact ih.select accepted.1 accepted.2

/-- Whatever was loaded, linked and selected, in any order and with any outcome, the target of
a call is the one that a registry selects that remembers nothing. -/
theorem resolveVirtual_forgetful (called : registry.Called path) (receiver : ClassId)
    (resolved : MethodId) :
    (registry.resolveVirtual receiver resolved).1 =
      (registry.forgetful.resolveVirtual receiver resolved).1 := by
  have recalls := called.recalls
  have forgets : registry.forgetful.Recalls := .of_empty recalls.closed.table rfl
  rw [recalls.resolveVirtual, forgets.resolveVirtual]
  rfl

/-- Requests alone are calls that leave nothing to remember. -/
theorem Serves.called (serves : registry.Serves (fun _ => True) path) :
    registry.Called path ∧ registry.selected = {} := by
  induction serves with
  | refl => exact ⟨.refl, rfl⟩
  | @tail before _ _ step ih =>
      obtain ⟨request, accepted, rfl⟩ := step
      exact ⟨ih.1.tail ⟨.ask request, accepted, rfl⟩, (before.selected_answer request).trans ih.2⟩

/-- A registry that has selected the target of a call of the lower method on the class with
both, and then failed to load a class. -/
def remembering : Registry :=
  (defaulted.perform (.select ⟨3⟩ ⟨⟨2⟩, 0⟩)).perform (.ask (.load "demo/Missing"))

theorem select?_defaulted : defaulted.select? ⟨3⟩ ⟨⟨2⟩, 0⟩ = some ⟨⟨1⟩, 0⟩ := by
  obtain ⟨-, gathered, -, -, declared⟩ := searches_defaulted
  have same := (declared ⟨2⟩ (gathered ▸ .tail _ (.head _))).2.1
  have found := lookupMethod_defaulted
  generalize defaulted = registry at *
  have flags : (registry.method ⟨⟨2⟩, 0⟩).flags = Access.isPublic := congrArg Signature.flags same
  have name : (registry.method ⟨⟨2⟩, 0⟩).name = "f" := congrArg Signature.name same
  have descriptor : (registry.method ⟨⟨2⟩, 0⟩).descriptor = "()I" :=
    congrArg Signature.descriptor same
  simp only [select?, Method.isPrivate, Method.isConstructor, flags, name, descriptor]
  rw [if_neg (by decide), found]

/-- It remembers the upper method, which one that remembers nothing selects as well. -/
theorem resolveVirtual_forgetful_remembering :
    remembering.Called {} ∧
      remembering.selected[((⟨3⟩, ⟨⟨2⟩, 0⟩) : ClassId × MethodId)]? = some ⟨⟨1⟩, 0⟩ ∧
      (remembering.forgetful.resolveVirtual ⟨3⟩ ⟨⟨2⟩, 0⟩).1 = some ⟨⟨1⟩, 0⟩ := by
  obtain ⟨-, gathered, -, -, declared⟩ := searches_defaulted
  obtain ⟨_, _, _, _, holds, -⟩ := exists_defaulted
  have lower := (declared ⟨2⟩ (gathered ▸ .tail _ (.head _))).1
  have served : defaulted.Serves (fun _ => True) {} := serves_ofFiles _
  obtain ⟨called, empty⟩ := served.called
  have inside : defaulted.Has ⟨3⟩ := holds.has_iff.mpr (by decide)
  have linked : defaulted.HasMethod ⟨⟨2⟩, 0⟩ :=
    hasMethod_of_declaredMethod? served.closed.table (holds.has_iff.mpr (by decide)) lower
  have called : remembering.Called {} :=
    (called.tail ⟨.select ⟨3⟩ ⟨⟨2⟩, 0⟩, ⟨inside, linked⟩, rfl⟩).tail
      ⟨.ask (.load "demo/Missing"), trivial, rfl⟩
  have held : remembering.selected[((⟨3⟩, ⟨⟨2⟩, 0⟩) : ClassId × MethodId)]? = some ⟨⟨1⟩, 0⟩ := by
    rw [remembering, perform, selected_answer, perform, resolveVirtual, empty,
      Std.HashMap.getElem?_empty]
    simp only [select?_defaulted]
    exact Std.HashMap.getElem?_insert_self
  refine ⟨called, held, ?_⟩
  rw [← resolveVirtual_forgetful called, resolveVirtual, held]

end Jvm.Registry
