import Jvm.Proofs.Registry.Arrays
import Jvm.Proofs.Registry.Plain
import Jvm.Proofs.Registry.Reaching

/-!
# The order of classes

If no class file names an array class as its superclass and the files of interfaces name the
root, then a value of one class may be stored in a variable of another just if this one is
reached by going up superclasses and superinterfaces, or if both are arrays and the same
holds of their components. What a class is called makes no difference, though a class that is
linked past the class path may be called like an array.
-/

namespace Jvm

open ClassTable Linking

/-! ## Ranked tables -/

/-- How the components of an array class are read off its name. -/
inductive ArrayName.Part (table : ClassTable) (name : String) : Kind → Option ClassId → Prop
  | primitive {kind : Kind} (found : ArrayName.component name = .ok (.primitive kind)) :
      Part table name kind none
  | component {inner : String} {id : ClassId} (found : ArrayName.component name = .ok (.named inner))
      (called : (table.get id).name = inner) : Part table name .reference (some id)

/-- Whether a class is made up for arrays. -/
structure ClassTable.Bears (table : ClassTable) (cls : Class) (info : ArrayInfo) : Prop where
  called : ArrayName.isArrayName cls.name = true
  sort : cls.isInterface = false
  part : ArrayName.Part table cls.name info.element info.component
  superclass : cls.superclass.isSome ∧ cls.superclass = table.find? objectName
  interfaces : ∃ cloneable serializable, cls.interfaces = [cloneable, serializable] ∧
    table.find? cloneableName = some cloneable ∧ table.find? serializableName = some serializable

/-- Whether the superclasses of a table are ordinary classes, and its interfaces are below
the root. -/
structure ClassTable.Ranked (table : ClassTable) : Prop where
  stands : ∀ id, table.Has id → (table.get id).StandsAt id
  named : ∀ name id, table.find? name = some id → table.Has id ∧ (table.get id).name = name
  found : ∀ id, table.Has id → ArrayName.isArrayName (table.get id).name = false →
    table.find? (table.get id).name = some id
  bears : ∀ id info, table.Has id → (table.get id).array = some info →
    table.Bears (table.get id) info
  superclass : ∀ id above, table.Has id → (table.get id).superclass = some above →
    (table.get above).isInterface = false ∧ (table.get above).array = none
  interfaces : ∀ id iface, table.Has id → table.Declares id iface →
    (table.get iface).isInterface = true
  interface : ∀ id, table.Has id → (table.get id).isInterface = true →
    ∃ root, (table.get id).superclass = some root ∧ table.find? objectName = some root
  markers : ∀ name id, ArrayName.IsAbove name → table.find? name = some id →
    (table.get id).isInterface = true ∧ (table.get id).interfaces = []

namespace ClassTable

/-! ### Registrations -/

/-- What is found by a name that is no array's is found by it later. -/
theorem find?_register_of_ordinary {table : ClassTable} {cls : Class}
    (unnamed : ArrayName.isArrayName cls.name = false → table.find? cls.name = none)
    {name : String} {id : ClassId} (ordinary : ArrayName.isArrayName name = false)
    (found : table.find? name = some id) : (table.register cls).find? name = some id := by
  rw [find?_register, if_neg]
  · exact found
  · rintro rfl
    cases (unnamed ordinary).symm.trans found

/-- An array class goes on being one once there are more classes. -/
theorem Bears.register {table : ClassTable} {cls : Class}
    (unnamed : ArrayName.isArrayName cls.name = false → table.find? cls.name = none)
    {array : Class} {info : ArrayInfo}
    (inside : ∀ component, info.component = some component → table.Has component)
    (bears : table.Bears array info) : (table.register cls).Bears array info where
  called := bears.called
  sort := bears.sort
  part := by
    have part := bears.part
    generalize info.element = element, info.component = component at part inside
    cases part with
    | primitive found => exact .primitive found
    | component found called =>
        refine .component found ?_
        rw [get_register_of_has table cls (inside _ rfl)]
        exact called
  superclass := by
    obtain ⟨some, same⟩ := bears.superclass
    obtain ⟨root, known⟩ := Option.isSome_iff_exists.mp some
    exact ⟨some, known.trans (find?_register_of_ordinary unnamed rfl (same ▸ known)).symm⟩
  interfaces := by
    obtain ⟨cloneable, serializable, declared, first, second⟩ := bears.interfaces
    exact ⟨cloneable, serializable, declared, find?_register_of_ordinary unnamed rfl first,
      find?_register_of_ordinary unnamed rfl second⟩

end ClassTable

namespace ClassTable.Ranked

variable {table : ClassTable}

theorem empty : Ranked {} where
  stands _ known := absurd known (Nat.not_lt_zero _)
  named name _ found := nomatch (find?_empty name).symm.trans found
  found _ known := absurd known (Nat.not_lt_zero _)
  bears _ _ known := absurd known (Nat.not_lt_zero _)
  superclass _ _ known := absurd known (Nat.not_lt_zero _)
  interfaces _ _ known := absurd known (Nat.not_lt_zero _)
  interface _ known := absurd known (Nat.not_lt_zero _)
  markers name _ _ found := nomatch (find?_empty name).symm.trans found

variable (ranked : table.Ranked)

include ranked

/-- A class that is not called like an array is found by its name. -/
theorem find?_of_name {id : ClassId} {name : String} (known : table.Has id)
    (called : (table.get id).name = name) (ordinary : ArrayName.isArrayName name = false) :
    table.find? name = some id := by
  subst called
  exact ranked.found id known ordinary

theorem array_of_name {id : ClassId} (known : table.Has id)
    (ordinary : ArrayName.isArrayName (table.get id).name = false) : (table.get id).array = none := by
  cases held : (table.get id).array with
  | none => rfl
  | some info => cases ordinary.symm.trans (ranked.bears id info known held).called

/-- No interface is an array class. -/
theorem array_of_interface {id : ClassId} (known : table.Has id)
    (interface : (table.get id).isInterface = true) : (table.get id).array = none := by
  cases held : (table.get id).array with
  | none => rfl
  | some info => cases (ranked.bears id info known held).sort.symm.trans interface

section

variable {root : ClassId} (found : table.find? objectName = some root)

include found

/-- The root is below nothing: what is above it would be below it. -/
theorem superclass_root : (table.get root).superclass = none := by
  obtain ⟨known, named⟩ := ranked.named _ root found
  cases declared : (table.get root).superclass with
  | none => rfl
  | some above =>
      have lower := (ranked.stands root known).superclass above declared
      obtain ⟨top, last, inside, _, called⟩ :=
        superChain_ends_of_stands ranked.stands above (Nat.lt_trans lower known)
      have higher := index_le_of_mem_superChain (List.mem_of_getLast? last)
      cases found.symm.trans (ranked.find?_of_name inside called rfl)
      exact absurd higher (Nat.not_le.mpr lower)

theorem isInterface_root : (table.get root).isInterface = false := by
  obtain ⟨known, -⟩ := ranked.named _ root found
  rw [Bool.eq_false_iff]
  intro interface
  obtain ⟨above, declared, -⟩ := ranked.interface root known interface
  cases (ranked.superclass_root found).symm.trans declared

theorem array_root : (table.get root).array = none := by
  obtain ⟨known, named⟩ := ranked.named _ root found
  exact ranked.array_of_name known (named ▸ rfl)

theorem interfaces_root : (table.get root).interfaces = [] := by
  obtain ⟨known, -⟩ := ranked.named _ root found
  refine List.eq_nil_iff_forall_not_mem.mpr fun iface declared => ?_
  have lower := (ranked.stands root known).interfaces iface declared
  have inside := Nat.lt_trans lower known
  obtain ⟨above, direct, found'⟩ :=
    ranked.interface iface inside (ranked.interfaces root iface known declared)
  cases found.symm.trans found'
  exact Nat.lt_asymm lower ((ranked.stands iface inside).superclass root direct)

end

theorem register {cls : Class} (stands : cls.StandsAt table.nextId)
    (unnamed : ArrayName.isArrayName cls.name = false → table.find? cls.name = none)
    (bears : ∀ info, cls.array = some info → table.Bears cls info)
    (superclass : ∀ above, cls.superclass = some above →
      (table.get above).isInterface = false ∧ (table.get above).array = none)
    (interfaces : ∀ iface ∈ cls.interfaces, (table.get iface).isInterface = true)
    (interface : cls.isInterface = true →
      ∃ root, cls.superclass = some root ∧ table.find? objectName = some root)
    (marker : ArrayName.IsAbove cls.name → cls.isInterface = true ∧ cls.interfaces = []) :
    (table.register cls).Ranked := by
  have get {id : ClassId} (lower : id.index < table.nextId.index) :
      (table.register cls).get id = table.get id := get_register_of_has table cls lower
  have kept {name : String} {id : ClassId} (ordinary : ArrayName.isArrayName name = false)
      (found : table.find? name = some id) : (table.register cls).find? name = some id :=
    find?_register_of_ordinary unnamed ordinary found
  constructor
  case stands => exact forall_register (fun id cls => cls.StandsAt id) ranked.stands stands
  case named => exact names_register ranked.named
  case found =>
    intro id known ordinary
    rcases has_register table cls known with old | rfl
    · rw [get_register_of_has table cls old] at ordinary ⊢
      exact kept ordinary (ranked.found id old ordinary)
    · rw [get_register_nextId, ClassTable.find?_register, if_pos rfl]
  case bears =>
    intro id info known isArray
    rcases has_register table cls known with old | rfl
    · rw [get_register_of_has table cls old] at isArray ⊢
      refine (ranked.bears id info old isArray).register unnamed fun component part => ?_
      exact Nat.lt_trans ((ranked.stands id old).component info component isArray part) old
    · rw [get_register_nextId] at isArray ⊢
      exact (bears info isArray).register unnamed (stands.component info · isArray)
  case superclass =>
    intro id above known declared
    rcases has_register table cls known with old | rfl
    · rw [get_register_of_has table cls old] at declared
      rw [get (Nat.lt_trans ((ranked.stands id old).superclass above declared) old)]
      exact ranked.superclass id above old declared
    · rw [get_register_nextId] at declared
      rw [get (stands.superclass above declared)]
      exact superclass above declared
  case interfaces =>
    intro id iface known declared
    rcases has_register table cls known with old | rfl
    · rw [Declares, get_register_of_has table cls old] at declared
      rw [get (Nat.lt_trans ((ranked.stands id old).interfaces iface declared) old)]
      exact ranked.interfaces id iface old declared
    · rw [Declares, get_register_nextId] at declared
      rw [get (stands.interfaces iface declared)]
      exact interfaces iface declared
  case interface =>
    intro id known sort
    rcases has_register table cls known with old | rfl
    · rw [get_register_of_has table cls old] at sort ⊢
      obtain ⟨root, declared, found⟩ := ranked.interface id old sort
      exact ⟨root, declared, kept rfl found⟩
    · rw [get_register_nextId] at sort ⊢
      obtain ⟨root, declared, found⟩ := interface sort
      exact ⟨root, declared, kept rfl found⟩
  case markers =>
    intro name id above found
    rw [ClassTable.find?_register] at found
    split at found
    next same =>
        cases found
        rw [get_register_nextId]
        exact marker (same ▸ above)
    next =>
        rw [get_register_of_has table cls (ranked.named name id found).1]
        exact ranked.markers name id above found

end ClassTable.Ranked

namespace Linking

variable {source : ClassFile → Prop} {before after : ClassTable}

/-- What is found by a name that is no array's is found by it later. -/
theorem Joins.find? (joins : Joins source before after) {name : String} {id : ClassId}
    (ordinary : ArrayName.isArrayName name = false) (found : before.find? name = some id) :
    after.find? name = some id := by
  cases joins with
  | file _ unnamed _ linked =>
      exact find?_register_of_ordinary ((links_of_link linked).name ▸ unnamed) ordinary found
  | array array =>
      refine find?_register_of_ordinary (fun other => ?_) ordinary found
      cases array.symm.trans other

/-- A registration of a plain file keeps a table ranked. -/
theorem Joins.ranked (plain : ∀ file, source file → file.IsPlain)
    (markers : ∀ file, source file → before.find? file.name = none →
      ArrayName.IsAbove file.name → file.IsMarker)
    (joins : Joins source before after) (ranked : before.Ranked) : after.Ranked := by
  have own {name : String} {id : ClassId} (found : before.find? name = some id) :
      before.Has id ∧ (before.get id).id = id ∧ (before.get id).name = name := by
    obtain ⟨known, called⟩ := ranked.named name id found
    exact ⟨known, (ranked.stands id known).own, called⟩
  cases joins with
  | @file file superclass interfaces cls provided unnamed above linked =>
      have links := links_of_link linked
      have nearest {upper : ClassId} (declared : cls.superclass = some upper) :
          ∃ name, file.superclass = some name ∧ before.find? name = some upper ∧
            (before.get upper).isInterface = false := by
        rw [links.superclass] at declared
        cases named : file.superclass with
        | none =>
            rw [(above.root named).1] at declared
            cases declared
        | some name =>
            obtain ⟨id, rfl, found, sort⟩ := above.nearest name named
            cases (congrArg some (own found).2.1).symm.trans declared
            exact ⟨name, rfl, found, sort⟩
      have knows {iface : ClassId} (member : iface ∈ cls.interfaces) :
          before.Has iface ∧ (before.get iface).isInterface = true := by
        rw [links.interfaces] at member
        exact above.has_interface (fun _ _ found => (own found).1) member
      refine ranked.register ?_ (links.name ▸ unnamed) ?_ ?_ ?_ ?_ ?_
      · constructor
        · exact links.id
        · intro upper declared
          obtain ⟨name, -, found, -⟩ := nearest declared
          exact (own found).1
        · exact fun iface member => (knows member).1
        · intro array component same
          rw [links.array] at same
          cases same
        · intro missing
          rw [links.name]
          cases declared : file.superclass with
          | none => exact (above.root declared).2
          | some name =>
              obtain ⟨id, linked, -⟩ := above.nearest name declared
              rw [links.superclass, linked] at missing
              cases missing
      · intro info same
        rw [links.array] at same
        cases same
      · intro upper declared
        obtain ⟨name, named, found, sort⟩ := nearest declared
        obtain ⟨known, -, called⟩ := own found
        exact ⟨sort, ranked.array_of_name known (called ▸ (plain file provided).superclass name named)⟩
      · exact fun iface member => (knows member).2
      · intro sort
        rw [Class.isInterface, links.flags] at sort
        have named := (plain file provided).interface sort
        obtain ⟨id, rfl, found, -⟩ := above.nearest objectName named
        exact ⟨id, links.superclass.trans (congrArg some (own found).2.1), found⟩
      · intro isAbove
        rw [links.name] at isAbove
        have marker := markers file provided (unnamed isAbove.ordinary) isAbove
        refine ⟨?_, ?_⟩
        · rw [Class.isInterface, links.flags]
          exact marker.interface
        · have none := above.declared
          rw [marker.interfaces] at none
          cases none
          exact links.interfaces
  | @array name kind component object cloneable serializable array made root first second =>
      have sort := (Class.isMade_ofArray array before.nextId kind component object
        [cloneable, serializable]).sort
      have pair {iface : ClassId} (member : iface ∈ [cloneable, serializable]) :
          iface = cloneable ∨ iface = serializable := by
        simpa using member
      refine ranked.register ?_ ?_ ?_ ?_ ?_ ?_ ?_
      · constructor
        · rfl
        · rintro above ⟨⟩
          exact (own root).1
        · intro iface member
          rcases pair member with rfl | rfl
          · exact (own first).1
          · exact (own second).1
        · rintro info part ⟨⟩ same
          cases made with
          | primitive => cases same
          | component _ found =>
              cases same
              exact (own found).1
        · rintro ⟨⟩
      · intro ordinary
        cases array.symm.trans ordinary
      · rintro info ⟨⟩
        refine ⟨array, sort, ?_, ⟨rfl, root.symm⟩, cloneable, serializable, rfl, first, second⟩
        cases made with
        | primitive found => exact .primitive found
        | component found known => exact .component found (own known).2.2
      · rintro upper ⟨⟩
        exact ⟨ranked.isInterface_root root, ranked.array_root root⟩
      · intro iface member
        rcases pair member with rfl | rfl
        · exact (ranked.markers _ _ (.inl rfl) first).1
        · exact (ranked.markers _ _ (.inr rfl) second).1
      · intro interface
        cases sort.symm.trans interface
      · intro isAbove
        cases array.symm.trans isAbove.ordinary

end Linking

/-! ## The order -/

namespace ClassTable

/-- Whether a class is a superclass or an interface that another one declares. -/
def Parent (table : ClassTable) (id above : ClassId) : Prop :=
  (table.get id).superclass = some above ∨ table.Declares id above

/-- Whether the values of one class are values of another: it is reached by going up, or both
are arrays and this holds of their components. -/
inductive Below (table : ClassTable) : ClassId → ClassId → Prop
  | up {id above : ClassId} (reached : Relation.ReflTransGen table.Parent id above) : Below table id above
  | arrays {id above part slot : ClassId} {held wanted : ArrayInfo}
      (isArray : (table.get id).array = some held) (component : held.component = some part)
      (isArray' : (table.get above).array = some wanted) (component' : wanted.component = some slot)
      (below : Below table part slot) : Below table id above
  | primitives {id above : ClassId} {held wanted : ArrayInfo}
      (isArray : (table.get id).array = some held) (component : held.component = none)
      (isArray' : (table.get above).array = some wanted) (component' : wanted.component = none)
      (element : held.element = wanted.element) : Below table id above

namespace Ranked

variable {table : ClassTable} (ranked : table.Ranked)

include ranked

theorem index_lt_of_parent {id above : ClassId} (known : table.Has id)
    (parent : table.Parent id above) : above.index < id.index := by
  rcases parent with declared | declared
  · exact (ranked.stands id known).superclass above declared
  · exact (ranked.stands id known).interfaces above declared

theorem has_of_parent {id above : ClassId} (known : table.Has id)
    (parent : table.Parent id above) : table.Has above :=
  Nat.lt_trans (ranked.index_lt_of_parent known parent) known

/-- Nothing is below an array class but array classes. -/
theorem array_of_parent {id above : ClassId} (known : table.Has id)
    (parent : table.Parent id above) : (table.get above).array = none := by
  rcases parent with declared | declared
  · exact (ranked.superclass id above known declared).2
  · exact ranked.array_of_interface (ranked.has_of_parent known (.inr declared))
      (ranked.interfaces id above known declared)

theorem superclass?_eq {id : ClassId} (known : table.Has id) :
    table.superclass? id = (table.get id).superclass := by
  rw [superclass?]
  cases declared : (table.get id).superclass with
  | none => rfl
  | some above =>
      have lower := (ranked.stands id known).superclass above declared
      simp [Option.filter, lower]

theorem superChain_eq {id : ClassId} (known : table.Has id) :
    table.superChain id = id :: ((table.get id).superclass.elim [] table.superChain) := by
  have same := ranked.superclass?_eq known
  rw [superChain]
  split
  next top => rw [← same, top]; rfl
  next above found => rw [← same, found]; rfl

/-- What is on the superclass chain is reached. -/
theorem reached_of_mem_superChain {id above : ClassId} (known : table.Has id)
    (member : above ∈ table.superChain id) : Relation.ReflTransGen table.Parent id above := by
  induction id using superChain.induct table with
  | case1 id top =>
      rw [superChain, top] at member
      cases List.mem_singleton.mp member
      exact .refl
  | case2 id next found ih =>
      have declared : (table.get id).superclass = some next :=
        (ranked.superclass?_eq known).symm.trans found
      rw [superChain, found] at member
      rcases List.mem_cons.mp member with rfl | later
      · exact .refl
      · exact .head (.inl declared) (ih (ranked.has_of_parent known (.inl declared)) later)

theorem exists_root {id : ClassId} (known : table.Has id) :
    ∃ root, table.find? objectName = some root := by
  obtain ⟨top, -, inside, -, called⟩ := superChain_ends_of_stands ranked.stands id known
  exact ⟨top, ranked.find?_of_name inside called rfl⟩

theorem reached_root {id root : ClassId} (known : table.Has id)
    (found : table.find? objectName = some root) : Relation.ReflTransGen table.Parent id root := by
  obtain ⟨top, last, inside, -, called⟩ := superChain_ends_of_stands ranked.stands id known
  cases found.symm.trans (ranked.find?_of_name inside called rfl)
  exact ranked.reached_of_mem_superChain known (List.mem_of_getLast? last)

theorem superChain_root {root : ClassId} (found : table.find? objectName = some root) :
    table.superChain root = [root] := by
  rw [ranked.superChain_eq (ranked.named _ root found).1, ranked.superclass_root found]
  rfl

/-- An interface has only the root above it on its superclass chain. -/
theorem mem_superChain_of_interface {id above : ClassId} (known : table.Has id)
    (interface : (table.get id).isInterface = true) (member : above ∈ table.superChain id) :
    above = id ∨ table.find? objectName = some above := by
  obtain ⟨root, declared, found⟩ := ranked.interface id known interface
  rw [ranked.superChain_eq known, declared, Option.elim_some, ranked.superChain_root found] at member
  rcases List.mem_cons.mp member with same | last
  · exact .inl same
  · exact .inr (List.mem_singleton.mp last ▸ found)

theorem mem_superChain_of_superclass {id next above : ClassId} (known : table.Has id)
    (declared : (table.get id).superclass = some next) (member : above ∈ table.superChain next) :
    above ∈ table.superChain id := by
  rw [ranked.superChain_eq known, declared]
  exact .tail _ member

/-- The superclasses of a class, the class itself apart, are no interfaces. -/
theorem isInterface_of_mem_superChain {id above : ClassId} (known : table.Has id)
    (member : above ∈ table.superChain id) (apart : above ≠ id) :
    (table.get above).isInterface = false := by
  induction id using superChain.induct table with
  | case1 id top =>
      rw [superChain, top] at member
      exact absurd (List.mem_singleton.mp member) apart
  | case2 id next found ih =>
      have declared : (table.get id).superclass = some next :=
        (ranked.superclass?_eq known).symm.trans found
      rw [superChain, found] at member
      have later := (List.mem_cons.mp member).resolve_left apart
      by_cases same : above = next
      · exact same ▸ (ranked.superclass id next known declared).1
      · exact ih (ranked.has_of_parent known (.inl declared)) later same

/-- An interface is reached by going up the superclass chain first. -/
theorem declares_of_reached {id iface : ClassId} (known : table.Has id)
    (interface : (table.get iface).isInterface = true)
    (reached : Relation.ReflTransGen table.Parent id iface) :
    ∃ above ∈ table.superChain id, Relation.ReflTransGen table.Declares above iface := by
  induction reached using Relation.ReflTransGen.head_induction_on with
  | refl => exact ⟨iface, table.mem_superChain_self iface, .refl⟩
  | @head id next parent _ ih =>
      have inside := ranked.has_of_parent known parent
      obtain ⟨above, member, declares⟩ := ih inside
      rcases parent with declared | declared
      · exact ⟨above, ranked.mem_superChain_of_superclass known declared member, declares⟩
      · have sort := ranked.interfaces id next known declared
        rcases ranked.mem_superChain_of_interface inside sort member with rfl | found
        · exact ⟨id, table.mem_superChain_self id, .head declared declares⟩
        · -- the root has no interfaces and is none
          rcases Relation.ReflTransGen.cases_head declares with rfl | ⟨other, first, -⟩
          · cases (ranked.isInterface_root found).symm.trans interface
          · rw [Declares, ranked.interfaces_root found] at first
            cases first

/-- A class other than the root is reached along the superclass chain alone. -/
theorem mem_superChain_of_reached {id above : ClassId} (known : table.Has id)
    (ordinary : (table.get above).isInterface = false)
    (apart : table.find? objectName ≠ some above)
    (reached : Relation.ReflTransGen table.Parent id above) : above ∈ table.superChain id := by
  induction reached using Relation.ReflTransGen.head_induction_on with
  | refl => exact table.mem_superChain_self above
  | @head id next parent _ ih =>
      have inside := ranked.has_of_parent known parent
      rcases parent with declared | declared
      · exact ranked.mem_superChain_of_superclass known declared (ih inside)
      · have sort := ranked.interfaces id next known declared
        rcases ranked.mem_superChain_of_interface inside sort (ih inside) with rfl | found
        · cases ordinary.symm.trans sort
        · exact absurd found apart

/-! ### Arrays -/

/-- Above an array class there are the root and the interfaces of all arrays, and nothing
above these but the root. -/
theorem reached_of_array {id above : ClassId} {held : ArrayInfo} (known : table.Has id)
    (isArray : (table.get id).array = some held)
    (reached : Relation.ReflTransGen table.Parent id above) :
    above = id ∨ ∃ name, (name = objectName ∨ ArrayName.IsAbove name) ∧
      table.find? name = some above := by
  have bears := ranked.bears id held known isArray
  obtain ⟨cloneable, serializable, both, first, second⟩ := bears.interfaces
  induction reached with
  | refl => exact .inl rfl
  | @tail middle above reached parent ih =>
      refine .inr ?_
      rcases ih with rfl | ⟨name, rfl | isAbove, found⟩
      · rcases parent with declared | declared
        · exact ⟨objectName, .inl rfl, bears.superclass.2 ▸ declared⟩
        · rw [Declares, both] at declared
          rcases List.mem_pair.mp declared with rfl | rfl
          · exact ⟨cloneableName, .inr (.inl rfl), first⟩
          · exact ⟨serializableName, .inr (.inr rfl), second⟩
      · rcases parent with declared | declared
        · cases (ranked.superclass_root found).symm.trans declared
        · rw [Declares, ranked.interfaces_root found] at declared
          cases declared
      · obtain ⟨sort, none⟩ := ranked.markers name middle isAbove found
        rcases parent with declared | declared
        · obtain ⟨root, other, known'⟩ :=
            ranked.interface middle (ranked.named _ _ found).1 sort
          cases declared.symm.trans other
          exact ⟨objectName, .inl rfl, known'⟩
        · rw [Declares, none] at declared
          cases declared

/-- These are above every array class. -/
theorem reached_from_array {id above : ClassId} {held : ArrayInfo} {name : String}
    (known : table.Has id) (isArray : (table.get id).array = some held)
    (isAbove : name = objectName ∨ ArrayName.IsAbove name) (found : table.find? name = some above) :
    Relation.ReflTransGen table.Parent id above := by
  have bears := ranked.bears id held known isArray
  obtain ⟨cloneable, serializable, both, first, second⟩ := bears.interfaces
  refine .single ?_
  rcases isAbove with rfl | rfl | rfl
  · exact .inl (bears.superclass.2.trans found)
  · cases first.symm.trans found
    exact .inr (by rw [Declares, both]; exact .head _)
  · cases second.symm.trans found
    exact .inr (by rw [Declares, both]; exact .tail _ (.head _))

/-- No array class is reached but from itself. -/
theorem eq_of_reached_array {id above : ClassId} {wanted : ArrayInfo} (known : table.Has id)
    (isArray : (table.get above).array = some wanted)
    (reached : Relation.ReflTransGen table.Parent id above) : above = id := by
  rcases Relation.ReflTransGen.cases_tail reached with same | ⟨middle, first, parent⟩
  · exact same
  · have inside : table.Has middle := by
      clear isArray parent
      induction first with
      | refl => exact known
      | tail _ parent ih => exact ranked.has_of_parent ih parent
    cases (ranked.array_of_parent inside parent).symm.trans isArray

theorem has_of_component {id part : ClassId} {held : ArrayInfo} (known : table.Has id)
    (isArray : (table.get id).array = some held) (component : held.component = some part) :
    part.index < id.index ∧ table.Has part := by
  have lower := (ranked.stands id known).component held part isArray component
  exact ⟨lower, Nat.lt_trans lower known⟩

/-- What is above a class is above all that is below it. -/
theorem below_trans {first second third : ClassId} (known : table.Has first)
    (known' : table.Has second) (left : table.Below first second)
    (right : table.Below second third) : table.Below first third := by
  induction left generalizing third with
  | up reached =>
      cases right with
      | up further => exact .up (reached.trans further)
      | arrays isArray component isArray' component' below =>
          cases ranked.eq_of_reached_array known isArray reached
          exact .arrays isArray component isArray' component' below
      | primitives isArray component isArray' component' element =>
          cases ranked.eq_of_reached_array known isArray reached
          exact .primitives isArray component isArray' component' element
  | @arrays first second part slot held wanted isArray component isArray' component' below ih =>
      cases right with
      | up further =>
          rcases ranked.reached_of_array known' isArray' further with rfl | ⟨name, isAbove, found⟩
          · exact .arrays isArray component isArray' component' below
          · exact .up (ranked.reached_from_array known isArray isAbove found)
      | arrays same same' isArray'' component'' further =>
          cases isArray'.symm.trans same
          cases component'.symm.trans same'
          have inside := (ranked.has_of_component known isArray component).2
          have inside' := (ranked.has_of_component known' isArray' component').2
          exact .arrays isArray component isArray'' component'' (ih inside inside' further)
      | primitives same same' =>
          cases isArray'.symm.trans same
          cases component'.symm.trans same'
  | primitives isArray component isArray' component' element =>
      cases right with
      | up further =>
          rcases ranked.reached_of_array known' isArray' further with rfl | ⟨name, isAbove, found⟩
          · exact .primitives isArray component isArray' component' element
          · exact .up (ranked.reached_from_array known isArray isAbove found)
      | arrays same same' =>
          cases isArray'.symm.trans same
          cases component'.symm.trans same'
      | primitives same same' isArray'' component'' further =>
          cases isArray'.symm.trans same
          exact .primitives isArray component isArray'' component'' (element.trans further)

/-! ### Deciding the order -/

theorem mem_allInterfaces_iff {id iface : ClassId} (known : table.Has id) :
    iface ∈ table.allInterfaces id ↔
      ∃ above ∈ table.superChain id, ∃ first, table.Declares above first ∧
        Relation.ReflTransGen table.Declares first iface :=
  ClassTable.mem_allInterfaces_iff
    (fun _ known _ declared => ranked.has_of_parent known (.inr declared)) known

/-- The interfaces that a class has are those above it. -/
theorem implements_iff {id iface : ClassId} (known : table.Has id) (apart : id ≠ iface)
    (interface : (table.get iface).isInterface = true) :
    table.implements id iface = true ↔ Relation.ReflTransGen table.Parent id iface := by
  rw [implements, decide_eq_true_iff, ranked.mem_allInterfaces_iff known]
  constructor
  · rintro ⟨above, member, first, declared, reached⟩
    have up : Relation.ReflTransGen table.Parent first iface :=
      Relation.ReflTransGen.mono (fun _ _ => .inr) _ _ reached
    exact (ranked.reached_of_mem_superChain known member).trans (.head (.inr declared) up)
  · intro reached
    obtain ⟨above, member, declares⟩ := ranked.declares_of_reached known interface reached
    rcases Relation.ReflTransGen.cases_head declares with rfl | ⟨first, declared, further⟩
    · have sort := ranked.isInterface_of_mem_superChain known member apart.symm
      cases sort.symm.trans interface
    · exact ⟨above, member, first, declared, further⟩

/-- A class other than the root is a superclass if and only if it is above. -/
theorem isSubclassOf_iff {id above : ClassId} (known : table.Has id)
    (ordinary : (table.get above).isInterface = false)
    (apart : table.find? objectName ≠ some above) :
    table.isSubclassOf id above = true ↔ Relation.ReflTransGen table.Parent id above := by
  rw [isSubclassOf, decide_eq_true_iff]
  exact ⟨ranked.reached_of_mem_superChain known,
    ranked.mem_superChain_of_reached known ordinary apart⟩

omit ranked in
/-- An ordinary class is below another class only if this one is above it. -/
theorem below_iff_of_ordinary {source target : ClassId}
    (ordinary : (table.get source).array = none) :
    table.Below source target ↔ Relation.ReflTransGen table.Parent source target := by
  refine ⟨?_, .up⟩
  rintro (reached | ⟨isArray, -, -, -, -⟩ | ⟨isArray, -, -, -, -⟩)
  · exact reached
  · cases ordinary.symm.trans isArray
  · cases ordinary.symm.trans isArray

/-- An array class is below an ordinary class only if all arrays are. -/
theorem below_iff_of_array {source target : ClassId} {held : ArrayInfo} (known : table.Has source)
    (known' : table.Has target) (isArray : (table.get source).array = some held)
    (ordinary : (table.get target).array = none) :
    table.Below source target ↔
      (table.get target).name = objectName ∨ ArrayName.IsAbove (table.get target).name := by
  constructor
  · rintro (reached | ⟨-, -, isArray', -, -⟩ | ⟨-, -, isArray', -, -⟩)
    · rcases ranked.reached_of_array known isArray reached with rfl | ⟨name, isAbove, found⟩
      · cases isArray.symm.trans ordinary
      · rw [(ranked.named _ _ found).2]
        exact isAbove
    · cases ordinary.symm.trans isArray'
    · cases ordinary.symm.trans isArray'
  · intro isAbove
    have ordinary : ArrayName.isArrayName (table.get target).name = false :=
      isAbove.elim (fun root => root ▸ rfl) ArrayName.IsAbove.ordinary
    have found := ranked.found target known' ordinary
    exact .up (ranked.reached_from_array known isArray isAbove found)

/-- The interfaces a class is below are those reached from its superclass chain. -/
theorem below_iff_declares {id iface : ClassId} (known : table.Has id) (known' : table.Has iface)
    (interface : (table.get iface).isInterface = true) :
    table.Below id iface ↔
      ∃ above ∈ table.superChain id, Relation.ReflTransGen table.Declares above iface := by
  constructor
  · rintro (reached | ⟨-, -, isArray, -, -⟩ | ⟨-, -, isArray, -, -⟩)
    · exact ranked.declares_of_reached known interface reached
    · cases (ranked.array_of_interface known' interface).symm.trans isArray
    · cases (ranked.array_of_interface known' interface).symm.trans isArray
  · rintro ⟨above, member, declares⟩
    exact .up ((ranked.reached_of_mem_superChain known member).trans
      (Relation.ReflTransGen.mono (fun _ _ => .inr) _ _ declares))

/-- Of two array classes one is below the other if their components are. -/
theorem below_iff_of_components {source target part slot : ClassId} {held wanted : ArrayInfo}
    (known : table.Has source) (isArray : (table.get source).array = some held)
    (component : held.component = some part) (isArray' : (table.get target).array = some wanted)
    (component' : wanted.component = some slot) :
    table.Below source target ↔ table.Below part slot := by
  refine ⟨?_, .arrays isArray component isArray' component'⟩
  rintro (reached | ⟨same, first, same', second, below⟩ | ⟨same, first, -, -, -⟩)
  · cases ranked.eq_of_reached_array known isArray' reached
    cases isArray.symm.trans isArray'
    cases component.symm.trans component'
    exact .up .refl
  · cases isArray.symm.trans same
    cases component.symm.trans first
    cases isArray'.symm.trans same'
    cases component'.symm.trans second
    exact below
  · cases isArray.symm.trans same
    cases component.symm.trans first

/-- Of two array classes one is below the other only if both or neither have components that
are classes, and in the second case if their components are of one kind. -/
theorem below_iff_of_elements {source target : ClassId} {held wanted : ArrayInfo}
    (known : table.Has source) (isArray : (table.get source).array = some held)
    (isArray' : (table.get target).array = some wanted) (apart : source ≠ target)
    (component : held.component = none ∨ wanted.component = none) :
    table.Below source target ↔ held.component = none ∧ wanted.component = none ∧
      held.element = wanted.element := by
  constructor
  · rintro (reached | ⟨same, first, same', second, -⟩ | ⟨same, first, same', second, element⟩)
    · exact absurd (ranked.eq_of_reached_array known isArray' reached).symm apart
    · cases isArray.symm.trans same
      cases isArray'.symm.trans same'
      rcases component with none | none
      · cases none.symm.trans first
      · cases none.symm.trans second
    · cases isArray.symm.trans same
      cases isArray'.symm.trans same'
      exact ⟨first, second, element⟩
  · rintro ⟨first, second, element⟩
    exact .primitives isArray first isArray' second element

/-- Assignability decides the order. -/
theorem isAssignable_iff {source target : ClassId} (known : table.Has source)
    (known' : table.Has target) :
    table.isAssignable source target = true ↔ table.Below source target := by
  rw [isAssignable]
  split
  next same => exact iff_of_true rfl (same ▸ .up .refl)
  next apart =>
      dsimp only
      split
      next isRoot =>
          have found := ranked.find?_of_name known' (eq_of_beq isRoot) rfl
          exact iff_of_true rfl (.up (ranked.reached_root known found))
      next notRoot =>
          have notRoot : (table.get target).name ≠ objectName := fun same => notRoot (by simp [same])
          split
          next held isArray =>
              split
              next wanted isArray' =>
                  split
                  next part slot component component' =>
                      have lower := ranked.has_of_component known isArray component
                      have inside := (ranked.has_of_component known' isArray' component').2
                      rw [if_pos lower.1, isAssignable_iff lower.2 inside,
                        ranked.below_iff_of_components known isArray component isArray' component']
                  next component component' =>
                      rw [ranked.below_iff_of_elements known isArray isArray' apart (.inl component),
                        beq_iff_eq]
                      exact ⟨fun element => ⟨component, component', element⟩, fun both => both.2.2⟩
                  next classes neither =>
                      have mixed : held.component = none ∨ wanted.component = none := by
                        cases component : held.component with
                        | none => exact .inl rfl
                        | some part =>
                            cases component' : wanted.component with
                            | none => exact .inr rfl
                            | some slot => exact (classes part slot component component').elim
                      rw [ranked.below_iff_of_elements known isArray isArray' apart mixed]
                      exact iff_of_false Bool.false_ne_true fun both => neither both.1 both.2.1
              next ordinary =>
                  rw [ranked.below_iff_of_array known known' isArray ordinary, Bool.or_eq_true,
                    beq_iff_eq, beq_iff_eq]
                  exact (or_iff_right notRoot).symm
          next ordinary =>
              rw [below_iff_of_ordinary ordinary]
              split
              next interface => exact ranked.implements_iff known apart interface
              next sort =>
                  refine ranked.isSubclassOf_iff known (Bool.eq_false_iff.mpr sort) fun found => ?_
                  exact notRoot (ranked.named _ target found).2
termination_by source.index

end Ranked

end ClassTable

/-! ## Registries over plain class files -/

/-- A request may be made where more files may be linked. -/
theorem Request.Accepted.mono {defines offers : ClassFile → Prop} {table : ClassTable}
    {request : Request} (accepted : request.Accepted defines table)
    (offered : ∀ file, defines file → offers file) : request.Accepted offers table := by
  cases request with
  | define bytes => exact fun file parsed => offered file (accepted file parsed)
  | _ => exact accepted

namespace Registry

/-- Whether a class file may be given to a registry: it is plain, and takes the place of an
interface of all arrays only with one that extends no other. -/
structure Grants (registry : Registry) (file : ClassFile) : Prop where
  plain : file.IsPlain
  marker : registry.find? file.name = none → ArrayName.IsAbove file.name → file.IsMarker

variable {registry : Registry}

/-- An answer leaves an ranked table. -/
theorem ranked_answer (plain : registry.path.IsPlain) (ranked : registry.Ranked)
    {request : Request}
    (accepted : request.Accepted registry.Grants registry.toClassTable) :
    (registry.answer request).2.Ranked := by
  have named : Named registry.toClassTable := fun name id found => (ranked.named name id found).1
  refine (answer_induct (motive := fun table => table.Ranked ∧ ∀ name id,
    ArrayName.isArrayName name = false → registry.find? name = some id →
      table.find? name = some id) accepted named ?_ ⟨ranked, fun _ _ _ found => found⟩).1
  rintro before after joins ⟨ranked, kept⟩
  refine ⟨joins.ranked ?_ ?_ ranked, fun name id ordinary found =>
    joins.find? ordinary (kept name id ordinary found)⟩
  · rintro file (provided | granted)
    · exact plain.files file provided
    · exact granted.plain
  · rintro file (provided | granted) unnamed isAbove
    · exact plain.markers file provided isAbove
    · refine granted.marker (Option.eq_none_iff_forall_not_mem.mpr fun id found => ?_) isAbove
      cases unnamed.symm.trans (kept _ _ isAbove.ordinary found)

end Registry

end Jvm
