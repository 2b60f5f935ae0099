import Jvm.Proofs.Registry.Closed
import Mathlib.Data.List.Nodup
import Mathlib.Data.List.Perm.Subperm

/-!
# Types of linked classes

What a class is as a type stays as it is once the class is linked, whatever
becomes of its statics, its constants or its initialization. So whether an object
may be stored in a variable is decided by the classes above its own: they were
linked with it, and a class that is linked later is none of them.
-/

namespace Jvm

/-- Whether a class differs from another one at most in what programs change. -/
structure Class.SameType (before after : Class) : Prop where
  name : after.name = before.name
  flags : after.flags = before.flags
  superclass : after.superclass = before.superclass
  interfaces : after.interfaces = before.interfaces
  methods : after.methods = before.methods
  array : after.array = before.array
  sourceFile : after.sourceFile = before.sourceFile

namespace Class.SameType

variable {first second third : Class}

theorem refl (cls : Class) : SameType cls cls := ⟨rfl, rfl, rfl, rfl, rfl, rfl, rfl⟩

theorem trans (left : SameType first second) (right : SameType second third) :
    SameType first third where
  name := right.name.trans left.name
  flags := right.flags.trans left.flags
  superclass := right.superclass.trans left.superclass
  interfaces := right.interfaces.trans left.interfaces
  methods := right.methods.trans left.methods
  array := right.array.trans left.array
  sourceFile := right.sourceFile.trans left.sourceFile

end Class.SameType

namespace ClassTable

/-- Whether a table has come from another one by new classes and by changes that leave
classes the ancestors that they have. -/
structure SameAncestors (before after : ClassTable) : Prop where
  size : before.size ≤ after.size
  superclass : ∀ id, before.Has id → (after.get id).superclass = (before.get id).superclass
  interfaces : ∀ id, before.Has id → (after.get id).interfaces = (before.get id).interfaces

/-- Whether a table has come from another one by new classes and by changes that leave
classes the types they are. -/
structure SameTypes (before after : ClassTable) : Prop where
  size : before.size ≤ after.size
  types : ∀ id, before.Has id → (before.get id).SameType (after.get id)

namespace SameTypes

variable {first second third : ClassTable}

theorem has (same : first.SameTypes second) {id : ClassId} (known : first.Has id) :
    second.Has id :=
  Nat.lt_of_lt_of_le known same.size

theorem trans (left : first.SameTypes second) (right : second.SameTypes third) :
    first.SameTypes third where
  size := Nat.le_trans left.size right.size
  types id known := (left.types id known).trans (right.types id (left.has known))

theorem ancestors (same : first.SameTypes second) : first.SameAncestors second where
  size := same.size
  superclass id known := (same.types id known).superclass
  interfaces id known := (same.types id known).interfaces

end SameTypes

theorem sameTypes_modify (table : ClassTable) (id : ClassId) {change : Class → Class}
    (same : ∀ cls : Class, cls.SameType (change cls)) : table.SameTypes (table.modify id change) where
  size := Nat.le_of_eq (size_modify ..).symm
  types other known := by
    rw [get_modify table id other change known]
    split
    · exact same _
    · exact .refl _

/-! ## Gathering interfaces -/

section

variable {table : ClassTable}

theorem length_le_size {seen : List ClassId} (distinct : seen.Nodup)
    (known : ∀ id ∈ seen, table.Has id) : seen.length ≤ table.size := by
  have indices : (seen.map ClassId.index).Nodup :=
    List.Nodup.map (fun left right same => by cases left; cases right; cases same; rfl) distinct
  have bounded : seen.map ClassId.index ⊆ List.range table.size := by
    intro index member
    obtain ⟨id, seen, rfl⟩ := List.mem_map.mp member
    exact List.mem_range.mpr (known id seen)
  have length := (indices.subperm bounded).length_le
  rwa [List.length_map, List.length_range] at length

end

namespace SameAncestors

variable {before after : ClassTable} (same : before.SameAncestors after) (closed : before.Closed)

include same

theorem superclass?_eq {id : ClassId} (known : before.Has id) :
    after.superclass? id = before.superclass? id := by
  rw [superclass?, superclass?, same.superclass id known]

include closed

theorem superChain_eq {id : ClassId} (known : before.Has id) :
    after.superChain id = before.superChain id := by
  induction id using superChain.induct before with
  | case1 id root =>
      rw [superChain, superChain]
      have kept := same.superclass?_eq known
      rw [root] at kept
      split
      · split
        · rfl
        · next found => cases root.symm.trans found
      · next found => cases kept.symm.trans found
  | case2 id above found ih =>
      have kept := (same.superclass?_eq known).trans found
      have rest := ih (has_of_superclass? closed known found)
      rw [superChain, superChain]
      split
      · next root => cases kept.symm.trans root
      · next first =>
          cases kept.symm.trans first
          split
          · next root => cases found.symm.trans root
          · next second =>
              cases found.symm.trans second
              rw [rest]

/-- Gathering ends before its fuel does, so that more fuel and more classes change
nothing. -/
theorem gatherInterfaces_eq {fuel more : Nat} {queue seen : List ClassId}
    (queued : ∀ id ∈ queue, before.Has id) (gathered : ∀ id ∈ seen, before.Has id)
    (distinct : seen.Nodup) (enough : before.size ≤ fuel + seen.length)
    (plenty : before.size ≤ more + seen.length) :
    after.gatherInterfaces more queue seen = before.gatherInterfaces fuel queue seen := by
  induction fuel, queue, seen using gatherInterfaces.induct before generalizing more with
  | case1 fuel seen => rw [gatherInterfaces.eq_def, gatherInterfaces.eq_def]
  | case2 fuel head queue seen known ih =>
      rw [gatherInterfaces.eq_def, gatherInterfaces.eq_def before]
      simp only [if_pos known]
      exact ih (fun id later => queued id (.tail _ later)) gathered distinct enough plenty
  | case3 head queue seen fresh =>
      have larger : (head :: seen).length ≤ before.size := by
        apply length_le_size (List.nodup_cons.mpr ⟨fresh, distinct⟩)
        exact List.forall_mem_cons.mpr ⟨queued head (.head _), gathered⟩
      rw [List.length_cons] at larger
      omega
  | case4 head queue seen fresh fuel ih =>
      have here := queued head (.head _)
      have larger : (head :: seen).length ≤ before.size := by
        apply length_le_size (List.nodup_cons.mpr ⟨fresh, distinct⟩)
        exact List.forall_mem_cons.mpr ⟨here, gathered⟩
      rw [List.length_cons] at larger
      obtain ⟨less, rfl⟩ : ∃ less, more = less + 1 := ⟨more - 1, by omega⟩
      rw [gatherInterfaces, if_neg fresh, gatherInterfaces, if_neg fresh,
        same.interfaces head here]
      have length : (seen ++ [head]).length = seen.length + 1 := List.length_append
      apply ih
      · intro id member
        rcases List.mem_append.mp member with old | new
        · exact queued id (.tail _ old)
        · exact (closed.classes head here).interfaces id new
      · intro id member
        rcases List.mem_append.mp member with old | new
        · exact gathered id old
        · cases List.mem_singleton.mp new
          exact here
      · exact List.nodup_append.mpr ⟨distinct, List.nodup_singleton _, by
          rintro id old other new rfl
          cases List.mem_singleton.mp new
          exact fresh old⟩
      · omega
      · omega

theorem allInterfaces_eq {id : ClassId} (known : before.Has id) :
    after.allInterfaces id = before.allInterfaces id := by
  have chain := same.superChain_eq closed known
  have declared : (after.superChain id).flatMap (fun above => (after.get above).interfaces) =
      (before.superChain id).flatMap fun above => (before.get above).interfaces := by
    rw [chain, List.flatMap_def, List.flatMap_def]
    congr 1
    apply List.map_congr_left
    intro above member
    exact same.interfaces above (has_of_mem_superChain closed known member)
  rw [allInterfaces, allInterfaces, declared]
  apply same.gatherInterfaces_eq closed
  · intro iface member
    obtain ⟨above, chain, declared⟩ := List.mem_flatMap.mp member
    exact (closed.classes above (has_of_mem_superChain closed known chain)).interfaces iface declared
  · exact fun _ none => absurd none List.not_mem_nil
  · exact List.nodup_nil
  · exact Nat.le_add_right _ _
  · exact Nat.le_trans same.size (Nat.le_add_right _ _)

end SameAncestors

namespace SameTypes

variable {before after : ClassTable} (same : before.SameTypes after) (closed : before.Closed)

include same

theorem method_eq {id : MethodId} (known : before.Has id.owner) :
    after.method id = before.method id := by
  rw [ClassTable.method, ClassTable.method, (same.types id.owner known).methods]

include closed

/-! ## Assignability -/

section

variable {source target : ClassId} (known : before.Has source)
  (object : (before.get source).array = none)

include known object

/-- Whether an object may be stored does not change for a class that was linked. -/
theorem isAssignable_eq (linked : before.Has target) :
    after.isAssignable source target = before.isAssignable source target := by
  have wanted := same.types target linked
  have array := (same.types source known).array
  have interface : (after.get target).isInterface = (before.get target).isInterface := by
    rw [Class.isInterface, Class.isInterface, wanted.flags]
  rw [isAssignable, isAssignable]
  dsimp only
  rw [wanted.name, array, object, interface]
  simp only [implements, isSubclassOf, same.ancestors.allInterfaces_eq closed known,
    same.ancestors.superChain_eq closed known]

/-- No object that was there may be stored as one of a class linked later, the root apart. -/
theorem not_isAssignable_of_new (unlinked : ¬before.Has target)
    (notRoot : (after.get target).name ≠ objectName) :
    after.isAssignable source target = false := by
  have array := (same.types source known).array
  have differs : source ≠ target := by
    rintro rfl
    exact unlinked known
  have name : ((after.get target).name == objectName) = false := beq_eq_false_iff_ne.mpr notRoot
  have noInterface : target ∉ before.allInterfaces source := fun member =>
    unlinked (has_of_mem_allInterfaces closed known member)
  have noSuperclass : target ∉ before.superChain source := fun member =>
    unlinked (has_of_mem_superChain closed known member)
  rw [isAssignable, if_neg differs]
  dsimp only
  rw [array, object]
  simp only [name, implements, isSubclassOf, same.ancestors.allInterfaces_eq closed known,
    same.ancestors.superChain_eq closed known, noInterface, noSuperclass, decide_false, ite_self]
  rfl

end

end SameTypes

end ClassTable

end Jvm
