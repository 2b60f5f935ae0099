import Jvm.Proofs.ClassFile.Reading
import Jvm.Proofs.Registry.Appending
import Jvm.Proofs.Registry.Types

/-!
# Classes that constants name

A class constant names a class once its class is linked. Linking more classes and
resolving constants change neither which linked class a constant names nor the types
of the classes, so what was named stays named, and what was not is a class linked
since.
-/

namespace Jvm

namespace ConstantPool

/-- Whether a slot of a pool has kept its constant, or has resolved a class constant:
to the class that a table knew by its name, or to one linked since. -/
def Resolves (table : ClassTable) (before after : ConstantPool) (index : UInt16) : Prop :=
  after.slot index = before.slot index ∨
    ∃ nameIndex name id, before.slot index = .cls nameIndex ∧ before.utf8 nameIndex = .ok name ∧
      after.slot index = .resolvedClass id ∧
      (table.find? name = some id ∨ table.find? name = none ∧ ¬table.Has id)

variable {table : ClassTable} {before after : ConstantPool} {index : UInt16}

theorem utf8_eq_ok_iff (pool : ConstantPool) (index : UInt16) (text : String) :
    pool.utf8 index = .ok text ↔ pool.slot index = .utf8 text := by
  simp only [utf8, get, bind, Except.bind]
  cases pool.slot index <;> simp [unexpected, pure, Except.pure]

theorem slot_of_get_error {pool : ConstantPool} {error : LoadError}
    (failed : pool.get index = .error error) : pool.slot index = .empty := by
  rw [get] at failed
  split at failed
  · assumption
  · cases failed

theorem Resolves.slot_utf8 (resolves : Resolves table before after index) {text : String} :
    after.slot index = .utf8 text ↔ before.slot index = .utf8 text := by
  rcases resolves with same | ⟨nameIndex, name, id, old, -, new, -⟩
  · rw [same]
  · rw [old, new]
    constructor <;> exact nofun

theorem slot_set_of_used {pool : ConstantPool} {index : UInt16} (used : pool.slot index ≠ .empty)
    (constant : Constant) (other : UInt16) :
    (pool.set index constant).slot other = if index = other then constant else pool.slot other := by
  have inside : index.toNat < pool.size := by
    apply Nat.lt_of_not_le
    intro outside
    rw [slot, Array.getD_eq_getD_getElem?, Array.getElem?_eq_none outside] at used
    exact used rfl
  rw [slot_set]
  by_cases same : index = other
  · rw [if_pos ⟨same, inside⟩, if_pos same]
  · rw [if_neg fun both => same both.1, if_neg same]

end ConstantPool

namespace ClassTable

/-- The linked class that a constant of a class names. -/
def named? (table : ClassTable) (id : ClassId) (index : UInt16) : Option ClassId :=
  match (table.get id).pool.slot index with
  | .resolvedClass resolved => some resolved
  | .cls nameIndex =>
    match (table.get id).pool.utf8 nameIndex with
    | .ok name => table.find? name
    | .error _ => none
  | _ => none

theorem Closed.has_of_named? {table : ClassTable} (closed : table.Closed) {owner id : ClassId}
    {index : UInt16} (known : table.Has owner) (named : table.named? owner index = some id) :
    table.Has id := by
  have ids := (closed.classes owner known).pool index
  rw [named?] at named
  split at named
  · next resolved held =>
      cases named
      rw [held] at ids
      exact ids
  · split at named
    · exact closed.names _ id named
    · cases named
  · cases named

/-- Whether a table has come from another one by linking classes, resolving class
constants and letting initializations fail. -/
structure Searched (before after : ClassTable) : Prop extends before.SameTypes after where
  names : ∀ name id, before.find? name = some id → after.find? name = some id
  found : ∀ name id, after.find? name = some id → before.find? name = some id ∨ ¬before.Has id
  fresh : ∀ id, after.Has id → ¬before.Has id → before.find? (after.get id).name = none
  pools : ∀ id index, before.Has id →
    ConstantPool.Resolves before (before.get id).pool (after.get id).pool index
  failed : ∀ id, before.Has id → (before.get id).initState = .failed →
    (after.get id).initState = .failed

namespace Searched

variable {first second third : ClassTable}

theorem refl (table : ClassTable) : table.Searched table where
  size := Nat.le_refl _
  types _ _ := .refl _
  names _ _ found := found
  found _ _ found := .inl found
  fresh _ known unknown := (unknown known).elim
  pools _ _ _ := .inl rfl
  failed _ _ failed := failed

/-- A name that a later table knows was known before, or is that of a class linked
since. -/
theorem find?_cases (searched : first.Searched second) {name : String} {id : ClassId}
    (found : second.find? name = some id) :
    first.find? name = some id ∨ first.find? name = none ∧ ¬first.Has id := by
  rcases searched.found name id found with before | unknown
  · exact .inl before
  · cases named : first.find? name with
    | none => exact .inr ⟨rfl, unknown⟩
    | some other =>
        cases found.symm.trans (searched.names name other named)
        exact .inl rfl

theorem find?_eq_none (searched : first.Searched second) {name : String}
    (unknown : second.find? name = none) : first.find? name = none := by
  cases found : first.find? name with
  | none => rfl
  | some id => cases unknown.symm.trans (searched.names name id found)

theorem trans (left : first.Searched second) (right : second.Searched third) :
    first.Searched third where
  toSameTypes := left.toSameTypes.trans right.toSameTypes
  names name id found := right.names name id (left.names name id found)
  found name id found := by
    rcases right.found name id found with middle | unknown
    · exact left.found name id middle
    · exact .inr fun known => unknown (left.has known)
  fresh id known unknown := by
    by_cases middle : second.Has id
    · rw [(right.types id middle).name]
      exact left.fresh id middle unknown
    · exact left.find?_eq_none (right.fresh id known middle)
  pools id index known := by
    rcases right.pools id index (left.has known) with same |
      ⟨nameIndex, name, resolved, symbolic, named, held, origin⟩
    · rcases left.pools id index known with old | ⟨nameIndex, name, resolved, rest⟩
      · exact .inl (same.trans old)
      · exact .inr ⟨nameIndex, name, resolved, same ▸ rest⟩
    · -- a constant resolves only once
      rcases left.pools id index known with old | ⟨_, _, _, -, -, already, -⟩
      · refine .inr ⟨nameIndex, name, resolved, old ▸ symbolic, ?_, held, ?_⟩
        · rw [ConstantPool.utf8_eq_ok_iff] at named ⊢
          exact (left.pools id nameIndex known).slot_utf8.mp named
        · rcases origin with found | ⟨unnamed, unknown⟩
          · exact left.find?_cases found
          · exact .inr ⟨left.find?_eq_none unnamed, fun here => unknown (left.has here)⟩
      · cases already.symm.trans symbolic
  failed id known failed := right.failed id (left.has known) (left.failed id known failed)

theorem of_prefixes (prefixes : first.Prefixes second) : first.Searched second where
  size := prefixes.size
  types id known := by
    rw [prefixes.classes id known]
    exact .refl _
  names := prefixes.names
  found := prefixes.found
  fresh id known unknown := (prefixes.fresh id known unknown).2
  pools id index known := .inl (by rw [prefixes.classes id known])
  failed id known failed := by rwa [prefixes.classes id known]

/-! ### What a constant named -/

section

variable (searched : first.Searched second) {owner : ClassId} (known : first.Has owner)
  {index : UInt16}

include searched known

/-- A resolved constant named its class, unless the class was linked since. -/
theorem named?_of_resolved {id : ClassId}
    (slot : (second.get owner).pool.slot index = .resolvedClass id) :
    first.named? owner index = some id ∨ first.named? owner index = none ∧ ¬first.Has id := by
  rcases searched.pools owner index known with same |
    ⟨nameIndex, name, resolved, symbolic, named, held, origin⟩
  · have old : (first.get owner).pool.slot index = .resolvedClass id := same.symm.trans slot
    simp only [named?, old, true_or]
  · cases held.symm.trans slot
    simp only [named?, symbolic, named]
    exact origin

theorem slot_of_symbolic {nameIndex : UInt16}
    (slot : (second.get owner).pool.slot index = .cls nameIndex) :
    (first.get owner).pool.slot index = .cls nameIndex := by
  rcases searched.pools owner index known with same | ⟨_, _, _, -, -, held, -⟩
  · exact same.symm.trans slot
  · cases held.symm.trans slot

theorem named?_of_symbolic {nameIndex : UInt16} {name : String}
    (slot : (second.get owner).pool.slot index = .cls nameIndex)
    (read : (second.get owner).pool.utf8 nameIndex = .ok name) :
    first.named? owner index = first.find? name := by
  have utf8 : (first.get owner).pool.utf8 nameIndex = .ok name := by
    rw [ConstantPool.utf8_eq_ok_iff] at read ⊢
    exact (searched.pools owner nameIndex known).slot_utf8.mp read
  simp only [named?, searched.slot_of_symbolic known slot, utf8]

theorem named?_of_unreadable {nameIndex : UInt16} {error : LoadError}
    (slot : (second.get owner).pool.slot index = .cls nameIndex)
    (failed : (second.get owner).pool.utf8 nameIndex = .error error) :
    first.named? owner index = none := by
  simp only [named?, searched.slot_of_symbolic known slot]
  split
  · next name read =>
      rw [ConstantPool.utf8_eq_ok_iff] at read
      have utf8 := (searched.pools owner nameIndex known).slot_utf8.mpr read
      rw [← ConstantPool.utf8_eq_ok_iff] at utf8
      cases utf8.symm.trans failed
  · rfl

/-- A constant that is not of a class names none. -/
theorem named?_eq_none {constant : Constant}
    (slot : (second.get owner).pool.slot index = constant)
    (unresolved : ∀ id, constant ≠ .resolvedClass id) (other : ∀ name, constant ≠ .cls name) :
    first.named? owner index = none := by
  rcases searched.pools owner index known with same | ⟨_, _, id, -, -, held, -⟩
  · have old : (first.get owner).pool.slot index = constant := same.symm.trans slot
    rw [named?, old]
    split
    · exact (unresolved _ rfl).elim
    · exact (other _ rfl).elim
    · rfl
  · exact (unresolved id (slot.symm.trans held)).elim

end

/-- A change of one class that leaves its type and its constants, and a failure. -/
theorem modify (table : ClassTable) (id : ClassId) {change : Class → Class}
    (same : ∀ cls : Class, cls.SameType (change cls))
    (pool : ∀ cls : Class, (change cls).pool = cls.pool)
    (failed : ∀ cls : Class, cls.initState = .failed → (change cls).initState = .failed) :
    table.Searched (table.modify id change) where
  toSameTypes := table.sameTypes_modify id same
  names _ _ found := found
  found _ _ found := .inl found
  fresh other known unknown := (unknown ((has_modify ..).mp known)).elim
  pools other index known := by
    rw [get_modify table id other change known]
    split
    · exact .inl (by rw [pool])
    · exact .inl rfl
  failed other known before := by
    rw [get_modify table id other change known]
    split
    · exact failed _ before
    · exact before

/-- A class constant resolves to the class of its name. -/
theorem remember (table : ClassTable) {id resolved : ClassId} {index nameIndex : UInt16}
    {name : String} (symbolic : (table.get id).pool.slot index = .cls nameIndex)
    (named : (table.get id).pool.utf8 nameIndex = .ok name)
    (found : table.find? name = some resolved) :
    table.Searched (table.modify id fun cls =>
      { cls with pool := cls.pool.set index (.resolvedClass resolved) }) where
  toSameTypes := table.sameTypes_modify id fun _ => ⟨rfl, rfl, rfl, rfl, rfl, rfl, rfl⟩
  names _ _ found := found
  found _ _ found := .inl found
  fresh other known unknown := (unknown ((has_modify ..).mp known)).elim
  pools other place known := by
    have used : (table.get id).pool.slot index ≠ .empty := symbolic ▸ nofun
    rw [get_modify table id other _ known]
    split
    next same =>
      subst same
      dsimp only
      by_cases here : index = place
      · subst here
        refine .inr ⟨nameIndex, name, resolved, symbolic, named, ?_, .inl found⟩
        rw [ConstantPool.slot_set_of_used used, if_pos rfl]
      · refine .inl ?_
        rw [ConstantPool.slot_set_of_used used, if_neg here]
    next => exact .inl rfl
  failed other known before := by
    rw [get_modify table id other _ known]
    split <;> exact before

end Searched

end ClassTable

namespace Registry

/-- A class that is linked is not loaded again. -/
theorem load_eq_of_find? {registry : Registry} {name : String} {id : ClassId}
    (found : registry.find? name = some id) : registry.load name = (.ok id, registry) := by
  have loads : Linking.load registry.path [] name registry.toClassTable =
      .ok id registry.toClassTable := by
    rw [Linking.load]
    split
    · simp only [bind, EStateM.bind, run_get, found]
      rfl
    · rw [Linking.loadClass]
      simp only [bind, EStateM.bind, run_get, found]
      rfl
  rw [load, link, EStateM.run, loads]

theorem load_of_find? {registry : Registry} {name : String} {id : ClassId}
    (found : registry.find? name = some id) : (registry.load name).1 = .ok id :=
  congrArg Prod.fst (load_eq_of_find? found)

end Registry

end Jvm
