import Jvm.Machine.Resolve
import Jvm.Proofs.Registry.Lookups
import Jvm.Proofs.Registry.Naming

/-!
# What symbolic constants denote

A symbolic constant denotes the class of its name, the canonical string of its text, or
the member that is looked up in the class that it names. What it denotes lasts, and a
pool may hold it in place of the constant.
-/

namespace Jvm

theorem ConstantPool.nameAndType_eq_ok_iff (pool : ConstantPool) (index : UInt16)
    (name descriptor : String) : pool.nameAndType index = .ok (name, descriptor) ↔
      ∃ nameIndex descriptorIndex, pool.slot index = .nameAndType nameIndex descriptorIndex ∧
        pool.utf8 nameIndex = .ok name ∧ pool.utf8 descriptorIndex = .ok descriptor := by
  simp only [nameAndType, get, bind, Except.bind]
  cases pool.slot index with
  | nameAndType nameIndex descriptorIndex =>
      cases first : pool.utf8 nameIndex with
      | error => simp [first]
      | ok => cases second : pool.utf8 descriptorIndex <;> simp [first, second, pure, Except.pure]
  | _ => simp [unexpected]

/-- Whether a constant stands for something that it denotes. -/
def Constant.IsReference : Constant → Prop
  | .cls _ | .string _ | .fieldRef .. | .methodRef .. | .interfaceMethodRef .. => True
  | _ => False

namespace ConstantPool

/-- Whether a pool holds what another one held where that held no reference. -/
def Keeps (before after : ConstantPool) : Prop :=
  ∀ index, ¬(before.slot index).IsReference → after.slot index = before.slot index

namespace Keeps

variable {before after : ConstantPool} (keeps : before.Keeps after) {index : UInt16}

include keeps

theorem utf8 {text : String} (read : before.utf8 index = .ok text) :
    after.utf8 index = .ok text := by
  rw [utf8_eq_ok_iff] at read ⊢
  exact (keeps index (read ▸ id)).trans read

theorem nameAndType {name descriptor : String}
    (read : before.nameAndType index = .ok (name, descriptor)) :
    after.nameAndType index = .ok (name, descriptor) := by
  rw [nameAndType_eq_ok_iff] at read ⊢
  obtain ⟨nameIndex, descriptorIndex, held, first, second⟩ := read
  exact ⟨nameIndex, descriptorIndex, (keeps index (held ▸ id)).trans held, keeps.utf8 first,
    keeps.utf8 second⟩

end Keeps

end ConstantPool

/-- What a constant of a class denotes, by the linked classes and the canonical strings. -/
inductive ClassTable.Denotes (table : ClassTable) (strings : String → Option Ref)
    (owner : ClassId) : Constant → Constant → Prop
  | cls {nameIndex : UInt16} {name : String} {id : ClassId}
      (read : (table.get owner).pool.utf8 nameIndex = .ok name)
      (found : table.find? name = some id) :
      Denotes table strings owner (.cls nameIndex) (.resolvedClass id)
  | string {textIndex : UInt16} {text : String} {ref : Ref}
      (read : (table.get owner).pool.utf8 textIndex = .ok text) (found : strings text = some ref) :
      Denotes table strings owner (.string textIndex) (.resolvedString ref)
  | field {classIndex natIndex : UInt16} {name descriptor : String} {holder declaring : ClassId}
      {field : Field} (read : (table.get owner).pool.nameAndType natIndex = .ok (name, descriptor))
      (named : table.named? owner classIndex = some holder)
      (found : table.lookupField holder name descriptor = some (declaring, field)) :
      Denotes table strings owner (.fieldRef classIndex natIndex)
        (.resolvedField ⟨declaring, field.slot, field.kind, field.isStatic⟩)
  | method {symbolic : Constant} {classIndex natIndex : UInt16} {name descriptor : String}
      {holder : ClassId} {method : MethodId}
      (refers : symbolic = .methodRef classIndex natIndex ∨
        symbolic = .interfaceMethodRef classIndex natIndex)
      (read : (table.get owner).pool.nameAndType natIndex = .ok (name, descriptor))
      (named : table.named? owner classIndex = some holder)
      (found : table.lookupMethod holder name descriptor = some method) :
      Denotes table strings owner symbolic (.resolvedMethod
        ⟨method, (table.method method).frameArgSlots, (table.method method).isStatic⟩)

namespace ClassTable

variable {table : ClassTable} {strings : String → Option Ref} {owner : ClassId}
  {symbolic resolved : Constant}

theorem Denotes.exists_cls {nameIndex : UInt16}
    (denotes : table.Denotes strings owner (.cls nameIndex) resolved) :
    ∃ name id, (table.get owner).pool.utf8 nameIndex = .ok name ∧ table.find? name = some id ∧
      resolved = .resolvedClass id := by
  cases denotes with
  | cls read found => exact ⟨_, _, read, found, rfl⟩
  | method refers => rcases refers with differs | differs <;> cases differs

theorem Denotes.exists_string {textIndex : UInt16}
    (denotes : table.Denotes strings owner (.string textIndex) resolved) :
    ∃ text ref, (table.get owner).pool.utf8 textIndex = .ok text ∧ strings text = some ref ∧
      resolved = .resolvedString ref := by
  cases denotes with
  | string read found => exact ⟨_, _, read, found, rfl⟩
  | method refers => rcases refers with differs | differs <;> cases differs

theorem Denotes.exists_name {id : ClassId}
    (denotes : table.Denotes strings owner symbolic (.resolvedClass id)) :
    ∃ nameIndex name, symbolic = .cls nameIndex ∧
      (table.get owner).pool.utf8 nameIndex = .ok name ∧ table.find? name = some id := by
  cases denotes with
  | cls read found => exact ⟨_, _, rfl, read, found⟩

theorem Denotes.exists_text {ref : Ref}
    (denotes : table.Denotes strings owner symbolic (.resolvedString ref)) :
    ∃ textIndex text, symbolic = .string textIndex ∧
      (table.get owner).pool.utf8 textIndex = .ok text ∧ strings text = some ref := by
  cases denotes with
  | string read found => exact ⟨_, _, rfl, read, found⟩

theorem Denotes.isReference (denotes : table.Denotes strings owner symbolic resolved) :
    symbolic.IsReference := by
  cases denotes with
  | method refers => rcases refers with rfl | rfl <;> trivial
  | _ => trivial

/-- What a constant denotes denotes nothing further. -/
theorem Denotes.not_isReference (denotes : table.Denotes strings owner symbolic resolved) :
    ¬resolved.IsReference := by
  cases denotes <;> exact id

/-- The ids that a constant denotes are linked. -/
theorem Denotes.idsIn (closed : table.Closed) (known : table.Has owner)
    (denotes : table.Denotes strings owner symbolic resolved) : resolved.IdsIn table := by
  cases denotes with
  | cls _ found => exact closed.names _ _ found
  | string => trivial
  | field _ named found =>
      exact has_of_lookupField closed (closed.has_of_named? known named) found
  | method _ _ named found =>
      exact hasMethod_of_lookupMethod closed (closed.has_of_named? known named) found

/-! ### What lasts -/

section

variable {before after : ClassTable} (classes : before.Resembles after)
  (keeps : (before.get owner).pool.Keeps (after.get owner).pool)
  (linked : ∀ index nameIndex, (before.get owner).pool.slot index = .cls nameIndex →
    (after.get owner).pool.slot index = .cls nameIndex ∨
      ∃ name id, (after.get owner).pool.utf8 nameIndex = .ok name ∧ after.find? name = some id ∧
        (after.get owner).pool.slot index = .resolvedClass id)

include classes keeps linked

/-- A constant names the class that it named, if at most class constants were replaced by
the classes that they name. -/
theorem named?_lasts {index : UInt16} {id : ClassId} (named : before.named? owner index = some id) :
    after.named? owner index = some id := by
  rw [named?] at named
  split at named
  next resolved held =>
      cases named
      rw [named?, (keeps index (by rw [held]; rintro ⟨⟩)).trans held]
  next nameIndex held =>
      split at named
      next name read =>
          have reads := keeps.utf8 read
          have found := classes.names _ _ named
          rcases linked index nameIndex held with same | ⟨later, other, readsLater, finds, holds⟩
          · simp only [named?, same, reads, found]
          · cases reads.symm.trans readsLater
            cases found.symm.trans finds
            rw [named?, holds]
      next => cases named
  next => cases named

/-- What a constant denotes lasts. -/
theorem Denotes.lasts (closed : before.Closed) (known : before.Has owner)
    {later : String → Option Ref} (kept : ∀ text ref, strings text = some ref → later text = some ref)
    (denotes : before.Denotes strings owner symbolic resolved) :
    after.Denotes later owner symbolic resolved := by
  cases denotes with
  | cls read found => exact .cls (keeps.utf8 read) (classes.names _ _ found)
  | string read found => exact .string (keeps.utf8 read) (kept _ _ found)
  | field read named found =>
      refine .field (keeps.nameAndType read) (named?_lasts classes keeps linked named) ?_
      rw [classes.lookupField closed (closed.has_of_named? known named)]
      exact found
  | @method _ _ _ _ _ _ method refers read named found =>
      have holder := closed.has_of_named? known named
      have here := (hasMethod_of_lookupMethod closed holder found).1
      rw [← classes.frameArgSlots here, ← classes.isStatic here]
      refine .method refers (keeps.nameAndType read) (named?_lasts classes keeps linked named) ?_
      rw [classes.lookupMethod closed holder]
      exact found

end

end ClassTable

/-! ## Pools that hold what their constants denote -/

/-- Whether the classes and canonical strings of a machine are still there later, and each
slot of a pool holds what it held or what that denotes. -/
structure ClassTable.Caches (strings later : String → Option Ref) (before after : ClassTable) :
    Prop where
  classes : before.Resembles after
  strings : ∀ text ref, strings text = some ref → later text = some ref
  slots : ∀ owner, before.Has owner → ∀ index,
    (after.get owner).pool.slot index = (before.get owner).pool.slot index ∨
      after.Denotes later owner ((before.get owner).pool.slot index)
        ((after.get owner).pool.slot index)

namespace ClassTable.Caches

variable {strings later : String → Option Ref} {before after : ClassTable}

theorem of_resembles (classes : before.Resembles after)
    (kept : ∀ text ref, strings text = some ref → later text = some ref)
    (pools : ∀ owner, before.Has owner → (after.get owner).pool = (before.get owner).pool) :
    Caches strings later before after where
  classes := classes
  strings := kept
  slots owner known index := .inl (by rw [pools owner known])

/-- A constant is replaced by what it denotes. -/
theorem of_denotes {owner : ClassId} {index : UInt16} {resolved : Constant} (closed : before.Closed)
    (denotes : before.Denotes strings owner ((before.get owner).pool.slot index) resolved) :
    Caches strings strings before (before.modify owner fun cls =>
      { cls with pool := cls.pool.set index resolved }) := by
  have classes : before.Resembles (before.modify owner fun cls =>
      { cls with pool := cls.pool.set index resolved }) :=
    .modify before owner ⟨rfl, rfl, rfl, rfl, rfl, rfl, rfl, rfl, rfl, fun _ found => found⟩
  have used : (before.get owner).pool.slot index ≠ .empty := by
    intro empty
    exact (empty ▸ denotes.isReference : Constant.IsReference .empty)
  have slot : before.Has owner → ∀ other, ((before.modify owner fun cls =>
      { cls with pool := cls.pool.set index resolved }).get owner).pool.slot other =
        if index = other then resolved else (before.get owner).pool.slot other := by
    intro known other
    rw [get_modify before owner owner _ known, if_pos rfl]
    exact ConstantPool.slot_set_of_used used resolved other
  refine ⟨classes, fun _ _ found => found, fun other known place => ?_⟩
  by_cases same : owner = other
  · subst same
    rw [slot known]
    split
    next here =>
        subst here
        refine .inr (denotes.lasts classes ?_ ?_ closed known fun _ _ found => found)
        · intro other settled
          rw [slot known, if_neg]
          rintro rfl
          exact settled denotes.isReference
        · intro other nameIndex held
          rw [slot known]
          split
          next here =>
              subst here
              obtain ⟨name, id, read, found, rfl⟩ := (held ▸ denotes).exists_cls
              refine .inr ⟨name, id, ?_, found, rfl⟩
              rw [ConstantPool.utf8_eq_ok_iff] at read ⊢
              rw [slot known, if_neg]
              · exact read
              · rintro rfl
                cases held.symm.trans read
          next => exact .inl held
    next => exact .inl rfl
  · exact .inl (by rw [get_modify_of_ne before owner other _ same])

section

variable (caches : Caches strings later before after) {owner : ClassId} (known : before.Has owner)

include caches known

/-- A constant that denotes nothing stays where it is. -/
theorem keeps : (before.get owner).pool.Keeps (after.get owner).pool := by
  intro index settled
  rcases caches.slots owner known index with same | denotes
  · exact same
  · exact (settled denotes.isReference).elim

/-- What a constant denotes lasts. -/
theorem denotes (closed : before.Closed) {symbolic resolved : Constant}
    (denotes : before.Denotes strings owner symbolic resolved) :
    after.Denotes later owner symbolic resolved := by
  refine denotes.lasts caches.classes (caches.keeps known) ?_ closed known caches.strings
  intro index nameIndex held
  rcases caches.slots owner known index with same | denotes
  · exact .inl (same.trans held)
  · obtain ⟨name, id, read, found, holds⟩ := (held ▸ denotes).exists_cls
    exact .inr ⟨name, id, read, found, holds⟩

end

theorem refl (table : ClassTable) : Caches strings strings table table :=
  of_resembles (.refl table) (fun _ _ found => found) fun _ _ => rfl

theorem trans {last : String → Option Ref} {third : ClassTable} (closed : after.Closed)
    (caches : Caches strings later before after) (next : Caches later last after third) :
    Caches strings last before third where
  classes := caches.classes.trans next.classes
  strings text ref found := next.strings text ref (caches.strings text ref found)
  slots owner known index := by
    have here := caches.classes.has known
    rcases caches.slots owner known index with same | denotes
    · rw [← same]
      exact next.slots owner here index
    · rw [next.keeps here index denotes.not_isReference]
      exact .inr (next.denotes here closed denotes)

end ClassTable.Caches

end Jvm
