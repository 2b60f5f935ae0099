import Mathlib.Data.List.Find
import Jvm.Proofs.Registry.Appending
import Jvm.Proofs.Registry.Types

/-!
# Look-ups that last

Look-ups read the names, ancestors and members of classes, which are there once a class
is linked and which programs do not change. So what was looked up in a linked class is
found there again, whatever is linked or changed meanwhile.
-/

namespace Jvm

/-- Whether a class differs from another one at most in what programs change; a class
object that there was is there still. -/
structure Class.Resembles (before after : Class) : Prop where
  id : after.id = before.id
  name : after.name = before.name
  flags : after.flags = before.flags
  superclass : after.superclass = before.superclass
  interfaces : after.interfaces = before.interfaces
  array : after.array = before.array
  fields : after.fields = before.fields
  methods : after.methods.map Method.bodiless = before.methods.map Method.bodiless
  slots : after.instanceSlots = before.instanceSlots
  mirror : ∀ ref, before.mirror = some ref → after.mirror = some ref

namespace Class.Resembles

variable {first second third : Class}

theorem refl (cls : Class) : cls.Resembles cls :=
  ⟨rfl, rfl, rfl, rfl, rfl, rfl, rfl, rfl, rfl, fun _ found => found⟩

theorem trans (left : first.Resembles second) (right : second.Resembles third) :
    first.Resembles third where
  id := right.id.trans left.id
  name := right.name.trans left.name
  flags := right.flags.trans left.flags
  superclass := right.superclass.trans left.superclass
  interfaces := right.interfaces.trans left.interfaces
  array := right.array.trans left.array
  fields := right.fields.trans left.fields
  methods := right.methods.trans left.methods
  slots := right.slots.trans left.slots
  mirror ref found := right.mirror ref (left.mirror ref found)

theorem declaredMethod? (same : first.Resembles second) (name descriptor : String) :
    second.declaredMethod? name descriptor = first.declaredMethod? name descriptor := by
  have found := congrArg (Array.findIdx? fun method =>
    method.name == name && method.descriptor == descriptor) same.methods
  rw [Array.findIdx?_map, Array.findIdx?_map] at found
  have equal : second.methods.findIdx? (fun method =>
      method.name == name && method.descriptor == descriptor) =
        first.methods.findIdx? fun method =>
          method.name == name && method.descriptor == descriptor := found
  rw [Class.declaredMethod?, Class.declaredMethod?, equal, same.id]

theorem declaredField? (same : first.Resembles second) (name descriptor : String) :
    second.declaredField? name descriptor = first.declaredField? name descriptor := by
  rw [Class.declaredField?, Class.declaredField?, same.fields]

/-- Another native or other code of one of its methods leaves a class what it is. -/
theorem of_method (cls : Class) (index : Nat) {change : Method → Method}
    (same : ∀ method, (change method).bodiless = method.bodiless) :
    cls.Resembles { cls with methods := cls.methods.modify index change } :=
  ⟨rfl, rfl, rfl, rfl, rfl, rfl, rfl, (Class.SameShape.of_modify index same).methods, rfl,
    fun _ found => found⟩

end Class.Resembles

namespace ClassTable

/-- Whether the classes of a table are still there, under their names, and have changed in
nothing but what programs change. -/
structure Resembles (before after : ClassTable) : Prop where
  size : before.size ≤ after.size
  classes : ∀ id, before.Has id → (before.get id).Resembles (after.get id)
  names : ∀ name id, before.find? name = some id → after.find? name = some id

namespace Resembles

variable {first second third : ClassTable}

theorem has (same : first.Resembles second) {id : ClassId} (known : first.Has id) :
    second.Has id :=
  Nat.lt_of_lt_of_le known same.size

theorem refl (table : ClassTable) : table.Resembles table :=
  ⟨Nat.le_refl _, fun _ _ => .refl _, fun _ _ found => found⟩

theorem trans (left : first.Resembles second) (right : second.Resembles third) :
    first.Resembles third where
  size := Nat.le_trans left.size right.size
  classes id known := (left.classes id known).trans (right.classes id (left.has known))
  names name id found := right.names name id (left.names name id found)

theorem of_prefixes (prefixes : first.Prefixes second) : first.Resembles second where
  size := prefixes.size
  classes id known := by
    rw [prefixes.classes id known]
    exact .refl _
  names := prefixes.names

theorem modify (table : ClassTable) (id : ClassId) {change : Class → Class}
    (same : (table.get id).Resembles (change (table.get id))) :
    table.Resembles (table.modify id change) where
  size := Nat.le_of_eq (size_modify ..).symm
  classes other known := by
    rw [get_modify table id other change known]
    split
    next equal =>
        subst equal
        exact same
    next => exact .refl _
  names _ _ found := found

theorem map (table : ClassTable) {change : Class → Class}
    (same : ∀ cls : Class, cls.Resembles (change cls)) :
    table.Resembles { table with classes := table.classes.map change } where
  size := Nat.le_of_eq Array.size_map.symm
  classes id known := by
    rw [get_map known]
    exact same _
  names _ _ found := found

theorem ancestors (same : first.Resembles second) : first.SameAncestors second where
  size := same.size
  superclass id known := (same.classes id known).superclass
  interfaces id known := (same.classes id known).interfaces

theorem growsTo (same : first.Resembles second) : first.GrowsTo second where
  size := same.size
  methods id known := (same.classes id known).methods

/-! ### What is looked up -/

theorem findSome?_congr {α β : Type} {find other : α → Option β} {list : List α}
    (same : ∀ item ∈ list, find item = other item) : list.findSome? find = list.findSome? other := by
  rw [← List.head?_filterMap, ← List.head?_filterMap, List.filterMap_congr same]

section

variable {before after : ClassTable} (same : before.Resembles after) (closed : before.Closed)
  {id : ClassId} (known : before.Has id)

include same

theorem frameArgSlots {method : MethodId} (linked : before.Has method.owner) :
    (after.method method).frameArgSlots = (before.method method).frameArgSlots := by
  have shape := congrArg Method.frameArgSlots (same.growsTo.bodiless_method linked)
  exact shape

theorem isStatic {method : MethodId} (linked : before.Has method.owner) :
    (after.method method).isStatic = (before.method method).isStatic := by
  have shape := congrArg Method.isStatic (same.growsTo.bodiless_method linked)
  exact shape

theorem isAbstract {method : MethodId} (linked : before.Has method.owner) :
    (after.method method).isAbstract = (before.method method).isAbstract := by
  have shape := congrArg Method.isAbstract (same.growsTo.bodiless_method linked)
  exact shape

include known in
theorem declaredMethod? (name descriptor : String) :
    after.declaredMethod? name descriptor id = before.declaredMethod? name descriptor id :=
  (same.classes id known).declaredMethod? name descriptor

include closed known

theorem lookupMethod (name descriptor : String) :
    after.lookupMethod id name descriptor = before.lookupMethod id name descriptor := by
  have chain : (after.superChain id).findSome? (after.declaredMethod? name descriptor) =
      (before.superChain id).findSome? (before.declaredMethod? name descriptor) := by
    rw [same.ancestors.superChain_eq closed known]
    apply findSome?_congr
    intro above member
    exact same.declaredMethod? (has_of_mem_superChain closed known member) name descriptor
  have declared : (after.allInterfaces id).filterMap (after.declaredMethod? name descriptor) =
      (before.allInterfaces id).filterMap (before.declaredMethod? name descriptor) := by
    rw [same.ancestors.allInterfaces_eq closed known]
    apply List.filterMap_congr
    intro iface member
    exact same.declaredMethod? (has_of_mem_allInterfaces closed known member) name descriptor
  rw [ClassTable.lookupMethod, ClassTable.lookupMethod, chain, declared]
  split
  · rfl
  · dsimp only
    congr 1
    apply List.find?_congr
    intro method member
    obtain ⟨iface, implemented, found⟩ := List.mem_filterMap.mp member
    have linked := hasMethod_of_declaredMethod? closed
      (has_of_mem_allInterfaces closed known implemented) found
    rw [same.isAbstract linked.1]

theorem fieldOf? (name descriptor : String) :
    after.fieldOf? name descriptor id = before.fieldOf? name descriptor id := by
  rw [ClassTable.fieldOf?, ClassTable.fieldOf?, same.ancestors.allInterfaces_eq closed known]
  apply findSome?_congr
  intro owner member
  have linked : before.Has owner := by
    rcases List.mem_cons.mp member with rfl | implemented
    · exact known
    · exact has_of_mem_allInterfaces closed known implemented
  rw [(same.classes owner linked).declaredField?]

theorem lookupField (name descriptor : String) :
    after.lookupField id name descriptor = before.lookupField id name descriptor := by
  rw [ClassTable.lookupField, ClassTable.lookupField, same.ancestors.superChain_eq closed known]
  apply findSome?_congr
  intro above member
  exact same.fieldOf? closed (has_of_mem_superChain closed known member) name descriptor

/-- A call on a receiver class selects what it would have selected before. -/
theorem select? {resolved : MethodId} (linked : before.HasMethod resolved) :
    after.select? id resolved = before.select? id resolved := by
  have shape := same.growsTo.bodiless_method linked.1
  have equal := congrArg (fun method : Method =>
    if method.isPrivate || method.isConstructor then some resolved
    else before.lookupMethod id method.name method.descriptor) shape
  rw [ClassTable.select?, ClassTable.select?, same.lookupMethod closed known]
  exact equal

end

end Resembles

end ClassTable

end Jvm
