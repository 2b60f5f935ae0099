import Jvm.Proofs.Registry.Lookups
import Jvm.Proofs.Registry.Overlooking

/-!
# Other bytes in the code of methods

The bytes of a method's code are read by the instructions that run in it and by nothing
else: look-ups, linking and initialization go by names, flags and layouts. A recoding puts
other bytes in the place of those that are there; whatever is asked of the classes
otherwise has the same answer.
-/

namespace Jvm

/-- A method with other bytes. -/
def Method.recode (change : Array UInt8 → Array UInt8) (method : Method) : Method :=
  { method with code := method.code.map fun code => { code with bytecode := change code.bytecode } }

/-- A class with other bytes in its methods, by their indices. -/
def Class.recode (change : Nat → Array UInt8 → Array UInt8) (cls : Class) : Class :=
  { cls with methods := cls.methods.mapIdx fun index method => method.recode (change index) }

/-- Other bytes for the methods of a table, by the indices of class and method. -/
abbrev Recoding := Nat → Nat → Array UInt8 → Array UInt8

namespace Recoding

/-- The bytes that are there. -/
def none : Recoding := fun _ _ bytes => bytes

/-- Whether bytes are the same from a class on. -/
def EndsAt (recoding : Recoding) (bound : Nat) : Prop :=
  ∀ index, bound ≤ index → recoding index = none index

theorem EndsAt.mono {recoding : Recoding} {bound further : Nat} (ends : recoding.EndsAt bound)
    (le : bound ≤ further) : recoding.EndsAt further :=
  fun index beyond => ends index (Nat.le_trans le beyond)

theorem endsAt_none (bound : Nat) : none.EndsAt bound := fun _ _ => rfl

end Recoding

namespace Method

variable (change : Array UInt8 → Array UInt8) (method : Method)

theorem recode_id : method.recode (fun bytes => bytes) = method := by
  obtain ⟨_, _, _, _, _, _, _, code, _⟩ := method
  cases code <;> rfl

theorem frameLocals_recode : (method.recode change).frameLocals = method.frameLocals := by
  obtain ⟨_, _, _, _, _, _, _, code, _⟩ := method
  cases code <;> rfl

theorem lineOf_recode (pc : UInt32) : (method.recode change).lineOf pc = method.lineOf pc := by
  obtain ⟨_, _, _, _, _, _, _, code, _⟩ := method
  cases code <;> rfl

end Method

namespace Class

variable (change : Nat → Array UInt8 → Array UInt8) (cls : Class)

theorem recode_none (index : Nat) : cls.recode (Recoding.none index) = cls := by
  have same : (cls.methods.mapIdx fun place method =>
      method.recode (Recoding.none index place)) = cls.methods := by
    apply Array.ext
    · rw [Array.size_mapIdx]
    · intro place _ _
      rw [Array.getElem_mapIdx]
      exact Method.recode_id _
  rw [recode, same]

theorem declaredMethod?_recode (name descriptor : String) :
    (cls.recode change).declaredMethod? name descriptor = cls.declaredMethod? name descriptor := by
  have same : ((cls.recode change).methods.map fun method =>
      method.name == name && method.descriptor == descriptor) =
        cls.methods.map fun method => method.name == name && method.descriptor == descriptor := by
    apply Array.ext
    · simp only [recode, Array.size_map, Array.size_mapIdx]
    · intro index _ _
      simp only [recode, Array.getElem_map, Array.getElem_mapIdx]
      rfl
  have found := congrArg (Array.findIdx? fun holds => holds) same
  simp only [Array.findIdx?_map, Function.comp_def] at found
  simp only [declaredMethod?, found]
  rfl

end Class

namespace ClassTable

/-- A table with other bytes in the methods of its classes. -/
def recode (recoding : Recoding) (table : ClassTable) : ClassTable :=
  { table with classes := table.classes.mapIdx fun index cls => cls.recode (recoding index) }

section

variable (recoding : Recoding) (table : ClassTable)

theorem size_recode : (table.recode recoding).size = table.size := Array.size_mapIdx

theorem get_recode (id : ClassId) :
    (table.recode recoding).get id = (table.get id).recode (recoding id.index) := by
  simp only [get, recode, Array.getD_eq_getD_getElem?, Array.getElem?_mapIdx]
  cases table.classes[id.index]? with
  | none => rfl
  | some cls => rfl

theorem method_recode (id : MethodId) : (table.recode recoding).method id =
    (table.method id).recode (recoding id.owner.index id.index.toNat) := by
  rw [method, method, get_recode]
  simp only [Class.recode, Array.getD_eq_getD_getElem?, Array.getElem?_mapIdx]
  cases (table.get id.owner).methods[id.index.toNat]? with
  | none => rfl
  | some method => rfl

theorem class?_recode (id : ClassId) : (table.recode recoding).class? id =
    (table.class? id).map fun cls => cls.recode (recoding id.index) := by
  simp only [class?, recode, Array.getElem?_mapIdx]

/-- Without other bytes a table is what it was. -/
theorem recode_none : table.recode .none = table := by
  have same : (table.classes.mapIdx fun index cls => cls.recode (Recoding.none index)) =
      table.classes := by
    apply Array.ext
    · rw [Array.size_mapIdx]
    · intro index _ _
      rw [Array.getElem_mapIdx, Class.recode_none]
  rw [recode, same]

/-- A class that is registered has its own bytes. -/
theorem recode_register {recoding : Recoding} {table : ClassTable}
    (ends : recoding.EndsAt table.size) (cls : Class) :
    (table.recode recoding).register cls = (table.register cls).recode recoding := by
  have classes : (table.recode recoding).classes.push cls =
      ((table.register cls).recode recoding).classes := by
    apply Array.ext
    · simp only [recode, register, Array.size_push, Array.size_mapIdx]
    · intro index _ within
      simp only [recode, register, Array.size_mapIdx, Array.size_push] at within
      simp only [recode, register, Array.getElem_mapIdx, Array.getElem_push, Array.size_mapIdx]
      split
      · rfl
      · rw [ends index (Nat.le_of_not_lt ‹_›), Class.recode_none]
  have next : (table.recode recoding).nextId = table.nextId :=
    congrArg ClassId.mk (table.size_recode recoding)
  rw [register, classes, next]
  rfl

theorem unnoticed_recode :
    Unnoticed (fun table => recoding.EndsAt table.size) (recode recoding) where
  size := size_recode recoding
  names _ _ := rfl
  classes table id := ⟨_, _, table.get_recode recoding id⟩
  register table cls ends :=
    ⟨ends.mono (Nat.le_of_lt (Nat.lt_of_lt_of_eq (Nat.lt_succ_self _) (size_register table cls).symm)),
      recode_register ends cls⟩

/-! ### What is looked up -/

theorem superclass?_recode (id : ClassId) :
    (table.recode recoding).superclass? id = table.superclass? id := by
  rw [superclass?, superclass?, get_recode]
  rfl

theorem superChain_recode (id : ClassId) :
    (table.recode recoding).superChain id = table.superChain id := by
  induction id using superChain.induct table with
  | case1 id none =>
      have same := (table.superclass?_recode recoding id).trans none
      rw [superChain.eq_def, superChain.eq_def]
      split
      next => split <;> simp_all
      next above found => cases same.symm.trans found
  | case2 id above found ih =>
      have same := (table.superclass?_recode recoding id).trans found
      rw [superChain.eq_def, superChain.eq_def table]
      split
      next none => cases same.symm.trans none
      next other reached =>
          cases same.symm.trans reached
          split
          next none => cases found.symm.trans none
          next again reached =>
              cases found.symm.trans reached
              rw [ih]

theorem gatherInterfaces_recode (fuel : Nat) (queue seen : List ClassId) :
    (table.recode recoding).gatherInterfaces fuel queue seen =
      table.gatherInterfaces fuel queue seen := by
  induction fuel, queue, seen using gatherInterfaces.induct table with
  | case1 => rw [gatherInterfaces, gatherInterfaces]
  | case2 fuel seen id queue member ih =>
      rw [gatherInterfaces.eq_def, gatherInterfaces.eq_def table]
      simp only [if_pos member]
      exact ih
  | case3 seen id queue fresh =>
      rw [gatherInterfaces.eq_def, gatherInterfaces.eq_def table]
      simp only [if_neg fresh]
  | case4 seen id queue fresh fuel ih =>
      rw [gatherInterfaces.eq_def, gatherInterfaces.eq_def table]
      simp only [if_neg fresh, get_recode]
      exact ih

theorem allInterfaces_recode (id : ClassId) :
    (table.recode recoding).allInterfaces id = table.allInterfaces id := by
  simp only [allInterfaces, superChain_recode, gatherInterfaces_recode, size_recode, get_recode]
  rfl

theorem declaredMethod?_recode (name descriptor : String) :
    (table.recode recoding).declaredMethod? name descriptor =
      table.declaredMethod? name descriptor := by
  funext id
  rw [declaredMethod?, declaredMethod?, get_recode, Class.declaredMethod?_recode]

theorem lookupMethod_recode (id : ClassId) (name descriptor : String) :
    (table.recode recoding).lookupMethod id name descriptor =
      table.lookupMethod id name descriptor := by
  have abstract : ∀ method, ((table.recode recoding).method method).isAbstract =
      (table.method method).isAbstract := by
    intro method
    rw [method_recode]
    rfl
  simp only [lookupMethod, superChain_recode, allInterfaces_recode, declaredMethod?_recode,
    abstract]

theorem fieldOf?_recode (name descriptor : String) :
    (table.recode recoding).fieldOf? name descriptor = table.fieldOf? name descriptor := by
  funext id
  have declared : ∀ owner, ((table.recode recoding).get owner).declaredField? name descriptor =
      (table.get owner).declaredField? name descriptor := by
    intro owner
    rw [get_recode]
    rfl
  simp only [fieldOf?, allInterfaces_recode, declared]

theorem lookupField_recode (id : ClassId) (name descriptor : String) :
    (table.recode recoding).lookupField id name descriptor =
      table.lookupField id name descriptor := by
  simp only [lookupField, superChain_recode, fieldOf?_recode]

theorem isAssignable_recode (source target : ClassId) :
    (table.recode recoding).isAssignable source target = table.isAssignable source target := by
  have names : ∀ id, ((table.recode recoding).get id).name = (table.get id).name := by
    intro id
    rw [get_recode]
    rfl
  have arrays : ∀ id, ((table.recode recoding).get id).array = (table.get id).array := by
    intro id
    rw [get_recode]
    rfl
  have interfaces : ∀ id, ((table.recode recoding).get id).isInterface =
      (table.get id).isInterface := by
    intro id
    rw [get_recode]
    rfl
  induction bound : source.index using Nat.strongRecOn generalizing source target with
  | ind bound ih =>
      subst bound
      have parts : ∀ part slot : ClassId,
          (if part.index < source.index then (table.recode recoding).isAssignable part slot
            else false) =
          if part.index < source.index then table.isAssignable part slot else false := by
        intro part slot
        split
        next below => exact ih part.index below part slot rfl
        next => rfl
      rw [isAssignable.eq_def, isAssignable.eq_def table]
      simp only [names, arrays, interfaces, implements, isSubclassOf, superChain_recode,
        allInterfaces_recode, parts]

theorem select?_recode (receiver : ClassId) (resolved : MethodId) :
    (table.recode recoding).select? receiver resolved = table.select? receiver resolved := by
  simp only [select?, lookupMethod_recode, method_recode]
  rfl

theorem displayName_recode (id : ClassId) :
    (table.recode recoding).displayName id = table.displayName id := by
  rw [displayName, displayName, get_recode]
  rfl

theorem methodLabel_recode (id : MethodId) :
    (table.recode recoding).methodLabel id = table.methodLabel id := by
  simp only [methodLabel, get_recode, method_recode]
  rfl

theorem describeFrame_recode (id : MethodId) (pc : UInt32) :
    (table.recode recoding).describeFrame id pc = table.describeFrame id pc := by
  simp only [describeFrame, get_recode, method_recode, Method.lineOf_recode]
  rfl

/-! ### What is changed -/

/-- A change of a class that does not depend on bytes goes with other bytes. -/
theorem modify_recode (id : ClassId) {change : Class → Class}
    (blind : ∀ (cls : Class) codes, change (cls.recode codes) = (change cls).recode codes) :
    (table.recode recoding).modify id change = (table.modify id change).recode recoding := by
  have classes : ((table.recode recoding).modify id change).classes =
      ((table.modify id change).recode recoding).classes := by
    apply Array.ext
    · simp only [recode, modify, Array.size_modify, Array.size_mapIdx]
    · intro index _ _
      simp only [recode, modify, Array.getElem_modify, Array.getElem_mapIdx]
      split
      · exact blind _ _
      · rfl
  have same : ∀ first second : ClassTable, first.classes = second.classes →
      first.byName = second.byName → first = second := by
    rintro ⟨_, _⟩ ⟨_, _⟩ rfl rfl
    rfl
  exact same _ _ classes rfl

theorem map_recode {change : Class → Class}
    (blind : ∀ (cls : Class) codes, change (cls.recode codes) = (change cls).recode codes) :
    ({ table.recode recoding with classes := (table.recode recoding).classes.map change } :
      ClassTable) = ({ table with classes := table.classes.map change } : ClassTable).recode
        recoding := by
  have classes : (table.recode recoding).classes.map change =
      (({ table with classes := table.classes.map change } : ClassTable).recode recoding).classes := by
    apply Array.ext
    · simp only [recode, Array.size_map, Array.size_mapIdx]
    · intro index _ _
      simp only [recode, Array.getElem_map, Array.getElem_mapIdx]
      exact blind _ _
  rw [classes]
  rfl

theorem modifyMethod_recode (id : MethodId) {change : Method → Method}
    (blind : ∀ (method : Method) code, change (method.recode code) = (change method).recode code) :
    (table.recode recoding).modifyMethod id change =
      (table.modifyMethod id change).recode recoding := by
  apply modify_recode
  intro cls codes
  have methods : (cls.recode codes).methods.modify id.index.toNat change =
      (cls.methods.modify id.index.toNat change).mapIdx fun index method =>
        method.recode (codes index) := by
    apply Array.ext
    · simp only [Class.recode, Array.size_modify, Array.size_mapIdx]
    · intro index _ _
      simp only [Class.recode, Array.getElem_modify, Array.getElem_mapIdx]
      split
      · exact blind _ _
      · rfl
  rw [methods]
  rfl

end

end ClassTable

namespace Registry

/-- A registry with other bytes in the methods of its classes. -/
def recode (recoding : Recoding) (registry : Registry) : Registry :=
  registry.withTable (ClassTable.recode recoding)

theorem resolveVirtual_recode (recoding : Recoding) (registry : Registry) (receiver : ClassId)
    (resolved : MethodId) : (registry.recode recoding).resolveVirtual receiver resolved =
      ((registry.resolveVirtual receiver resolved).1,
        (registry.resolveVirtual receiver resolved).2.recode recoding) := by
  have selects := registry.toClassTable.select?_recode recoding receiver resolved
  have remembers : (registry.recode recoding).selected = registry.selected := rfl
  have table :
      (registry.recode recoding).toClassTable = registry.toClassTable.recode recoding := rfl
  rw [resolveVirtual, resolveVirtual, remembers, table, selects]
  cases registry.selected[(receiver, resolved)]? with
  | some target => rfl
  | none => cases registry.select? receiver resolved <;> rfl

end Registry

end Jvm
