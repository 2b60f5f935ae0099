import Jvm.Proofs.Changing.Resolving
import Jvm.Proofs.Machine.Overlooking

/-!
# Resolution with constants restored

Where the pool of a class holds what a constant denotes, that constant may be put back:
resolution then returns what it returns without that, of this constant and of any other one,
in this class and in any other one. So what was replaced in a pool changes nothing of what
constants resolve to.
-/

namespace Jvm

namespace Machine

/-- Whether a pool holds what the pool of a class holds, or constants that denote that. -/
def Restores (machine : Machine) (owner : ClassId) (pool : ConstantPool) : Prop :=
  ∀ index, pool.slot index = (machine.cls owner).pool.slot index ∨
    machine.Denotes owner (pool.slot index) ((machine.cls owner).pool.slot index)

section

variable (machine : Machine) (owner : ClassId) (pool : ConstantPool)

theorem modifyClass_modifyClass (first second : Class → Class) :
    (machine.modifyClass owner first).modifyClass owner second =
      machine.modifyClass owner fun cls => second (first cls) := by
  have classes : (machine.registry.classes.modify owner.index first).modify owner.index second =
      machine.registry.classes.modify owner.index fun cls => second (first cls) := by
    apply Array.ext
    · simp only [Array.size_modify]
    · intro index _ _
      simp only [Array.getElem_modify]
      split <;> rfl
  simp only [modifyClass, modifyTable, ClassTable.modify, classes]

theorem modifyClass_comm {other : ClassId} (differs : owner ≠ other) (first second : Class → Class) :
    (machine.modifyClass owner first).modifyClass other second =
      (machine.modifyClass other second).modifyClass owner first := by
  have apart : owner.index ≠ other.index := fun same => differs (congrArg ClassId.mk same)
  have classes : (machine.registry.classes.modify owner.index first).modify other.index second =
      (machine.registry.classes.modify other.index second).modify owner.index first := by
    apply Array.ext
    · simp only [Array.size_modify]
    · intro index _ _
      simp only [Array.getElem_modify]
      by_cases here : owner.index = index
      · have elsewhere : other.index ≠ index := fun same => apart (here.trans same.symm)
        simp only [if_pos here, if_neg elsewhere]
      · simp only [if_neg here]
  simp only [modifyClass, modifyTable, ClassTable.modify, classes]

theorem setConstant_withPool (index : UInt16) (constant : Constant) :
    (machine.withPool owner pool).setConstant owner index constant =
      machine.withPool owner (pool.set index constant) := by
  rw [setConstant, withPool, withPool, modifyClass_modifyClass]

/-- A constant is replaced in a class whose pool was changed, or in another one. -/
theorem exists_withPool_setConstant (reader : ClassId) (index : UInt16) (constant : Constant) :
    ∃ other, (machine.withPool owner pool).setConstant reader index constant =
      (machine.setConstant reader index constant).withPool owner other := by
  by_cases same : owner = reader
  · subst same
    refine ⟨pool.set index constant, ?_⟩
    rw [setConstant_withPool, setConstant, withPool, withPool, modifyClass_modifyClass]
  · exact ⟨pool, machine.modifyClass_comm owner same _ _⟩

end

namespace Restores

variable {machine : Machine} {owner : ClassId} {pool : ConstantPool}
  (restores : machine.Restores owner pool) (known : machine.registry.Has owner)

include restores known

/-- Every class has the constants that it had, but for those that were restored. -/
theorem slots (reader : ClassId) (index : UInt16) :
    ((machine.withPool owner pool).cls reader).pool.slot index =
        (machine.cls reader).pool.slot index ∨
      owner = reader ∧ machine.Denotes reader
        (((machine.withPool owner pool).cls reader).pool.slot index)
        ((machine.cls reader).pool.slot index) := by
  have pools : ((machine.withPool owner pool).cls reader).pool =
      if owner = reader then pool else (machine.cls reader).pool :=
    machine.registry.toClassTable.pool_withPool owner pool known reader
  rw [pools]
  split
  next same =>
      subst same
      rcases restores index with kept | denotes
      · exact .inl kept
      · exact .inr ⟨rfl, denotes⟩
  next => exact .inl rfl

variable {reader : ClassId} {index : UInt16}

/-- A reference that is still there was never replaced. -/
theorem slot_of_isReference {symbolic : Constant} (reference : symbolic.IsReference)
    (held : (machine.cls reader).pool.slot index = symbolic) :
    ((machine.withPool owner pool).cls reader).pool.slot index = symbolic := by
  rcases restores.slots known reader index with same | ⟨-, denotes⟩
  · exact same.trans held
  · rw [held] at denotes
    exact (denotes.not_isReference reference).elim

/-- Constants that are neither references nor what these denote are where they were. -/
theorem slot_eq_iff {constant : Constant} (symbolic : ¬constant.IsReference)
    (unresolved : ∀ target, ¬constant.Answers target) :
    ((machine.withPool owner pool).cls reader).pool.slot index = constant ↔
      (machine.cls reader).pool.slot index = constant := by
  rcases restores.slots known reader index with same | ⟨-, denotes⟩
  · rw [same]
  · constructor
    · rintro rfl
      exact (symbolic denotes.isReference).elim
    · rintro rfl
      obtain ⟨target, answers⟩ := denotes.exists_answers
      exact (unresolved target answers).elim

theorem utf8_iff {text : String} :
    ((machine.withPool owner pool).cls reader).pool.utf8 index = .ok text ↔
      (machine.cls reader).pool.utf8 index = .ok text := by
  rw [ConstantPool.utf8_eq_ok_iff, ConstantPool.utf8_eq_ok_iff]
  exact restores.slot_eq_iff known id nofun

theorem nameAndType_iff {name descriptor : String} :
    ((machine.withPool owner pool).cls reader).pool.nameAndType index = .ok (name, descriptor) ↔
      (machine.cls reader).pool.nameAndType index = .ok (name, descriptor) := by
  have slots : ∀ nameIndex descriptorIndex,
      ((machine.withPool owner pool).cls reader).pool.slot index =
          .nameAndType nameIndex descriptorIndex ↔
        (machine.cls reader).pool.slot index = .nameAndType nameIndex descriptorIndex :=
    fun _ _ => restores.slot_eq_iff known id nofun
  simp only [ConstantPool.nameAndType_eq_ok_iff, restores.utf8_iff known, slots]

end Restores

end Machine

namespace Guest

open Machine

variable {machine : Machine} {owner reader : ClassId} {pool : ConstantPool}

/-! ## Classes -/

/-- A constant that names a class brings it about. -/
theorem brings_of_named? {index : UInt16} {id : ClassId}
    (named : machine.registry.named? reader index = some id) :
    ∃ after, Brings machine reader index id after := by
  rw [ClassTable.named?] at named
  split at named
  next resolved held =>
      cases named
      exact ⟨_, .held held⟩
  next nameIndex held =>
      split at named
      next name read => exact ⟨_, .loaded held read (Registry.load_eq_of_find? named)⟩
      next => cases named
  next => cases named

namespace Brings

variable {index : UInt16} {id : ClassId} {after : Machine}

/-- Bringing a class about goes along changes. -/
theorem changes (brings : Brings machine reader index id after) : Changes machine after :=
  (paces_resolveClass reader index).walks.ok (resolveClass_eq_ok_iff.mpr brings)

/-- A class that is brought about is linked. -/
theorem has (brings : Brings machine reader index id after) (proper : machine.Proper) :
    after.registry.Has id := by
  have used : (machine.cls reader).pool.slot index ≠ .empty := by
    intro empty
    cases brings with
    | held held => cases held.symm.trans empty
    | loaded held => cases held.symm.trans empty
  have known := (brings.changes.caches proper).classes.has (ClassTable.has_of_slot used)
  have links := ends_of_ok (resolveClass_eq_ok_iff.mpr brings)
    (@moves_resolveClass .all reader index machine).ends
  exact (brings.changes.proper proper).closed.has_of_named? known links.named

variable (known : machine.registry.Has owner) (restores : machine.Restores owner pool)

include known restores

/-- A class is brought about by the constant that is restored. -/
theorem restored (brings : Brings machine reader index id after) :
    ∃ other, Brings (machine.withPool owner pool) reader index id (after.withPool owner other) := by
  cases brings with
  | held held =>
      rcases restores.slots known reader index with same | ⟨rfl, denotes⟩
      · exact ⟨pool, .held (same.trans held)⟩
      · rw [held] at denotes
        obtain ⟨nameIndex, name, symbolic, read, found⟩ := denotes.exists_name
        have loads : (machine.withPool owner pool).registry.load name =
            (.ok id, (machine.withPool owner pool).registry) :=
          Registry.load_eq_of_find? found
        refine ⟨pool.set index (.resolvedClass id), ?_⟩
        rw [← setConstant_withPool]
        exact .loaded symbolic ((restores.utf8_iff known).mpr read) loads
  | @loaded nameIndex name registry held read loads =>
      have loadsToo := machine.registry.load_withPool known pool name
      rw [loads] at loadsToo
      obtain ⟨other, same⟩ := exists_withPool_setConstant { machine with registry } owner pool reader
        index (.resolvedClass id)
      refine ⟨other, ?_⟩
      rw [← same]
      exact .loaded (restores.slot_of_isReference known trivial held)
        ((restores.utf8_iff known).mpr read) loadsToo

/-- A class that a restored constant brings about is brought about without that. -/
theorem of_restored (brings : Brings (machine.withPool owner pool) reader index id after) :
    ∃ last other, Brings machine reader index id last ∧ after = last.withPool owner other := by
  cases brings with
  | held held =>
      rcases restores.slots known reader index with same | ⟨-, denotes⟩
      · exact ⟨machine, pool, .held (same.symm.trans held), rfl⟩
      · rw [held] at denotes
        exact (denotes.isReference : Constant.IsReference (.resolvedClass id)).elim
  | @loaded nameIndex name registry held read loads =>
      rw [restores.utf8_iff known] at read
      have loadsToo := (machine.registry.load_withPool known pool name).symm.trans loads
      obtain ⟨linked, rfl⟩ := Prod.mk.inj loadsToo
      rcases restores.slots known reader index with same | ⟨rfl, denotes⟩
      · obtain ⟨other, final⟩ := exists_withPool_setConstant
          { machine with registry := (machine.registry.load name).2 } owner pool reader index
          (.resolvedClass id)
        exact ⟨_, other, .loaded (same.symm.trans held) read (Prod.ext linked rfl), final⟩
      · rw [held] at denotes
        obtain ⟨other, resolved, readToo, found, holds⟩ := denotes.exists_cls
        cases read.symm.trans readToo
        have loaded := Registry.load_eq_of_find? found
        rw [loaded] at linked ⊢
        cases linked
        refine ⟨machine, pool.set index (.resolvedClass id), .held holds, ?_⟩
        rw [← setConstant_withPool]
        rfl

end Brings

/-! ## Strings and members -/

/-- A string that has a canonical one is not made again. -/
theorem internString_of_found {text : String} {ref : Ref}
    (found : machine.interned[text]? = some ref) : internString text machine = .ok ref machine := by
  simp only [internString, bind, EStateM.bind, run_get, found]
  rfl

/-- Members are found beside another pool. -/
theorem member?_withPool {after : Machine} (closed : after.registry.toClassTable.Closed)
    {holder : ClassId} (linked : after.registry.Has holder) (other : ConstantPool)
    (name descriptor : String) (target : ResolutionTarget) :
    (after.withPool owner other).registry.member? holder name descriptor target =
      after.registry.member? holder name descriptor target := by
  have classes : after.registry.Resembles (after.withPool owner other).registry.toClassTable :=
    .modify after.registry.toClassTable owner ⟨rfl, rfl, rfl, rfl, rfl, rfl, rfl, rfl, rfl,
      fun _ held => held⟩
  exact classes.member? closed linked name descriptor target

section

variable (known : machine.registry.Has owner) (restores : machine.Restores owner pool)
  (proper : machine.Proper) {target : ResolutionTarget} {index : UInt16} {resolved : Constant}

include known restores proper

/-- What a reference denotes is found from the reference that is restored. -/
theorem resolves_of_denotes {classIndex natIndex : UInt16}
    (denotes : machine.Denotes reader
      (((machine.withPool owner pool).cls reader).pool.slot index) resolved)
    (refers : (((machine.withPool owner pool).cls reader).pool.slot index).Refers target classIndex
      natIndex) :
    Resolves (machine.withPool owner pool) reader target index resolved := by
  obtain ⟨name, descriptor, holder, read, named, found⟩ := denotes.exists_member refers
  obtain ⟨after, brings⟩ := brings_of_named? named
  obtain ⟨other, restored⟩ := brings.restored known restores
  have used : (machine.registry.get reader).pool.slot classIndex ≠ .empty := by
    intro empty
    rw [ClassTable.named?, empty] at named
    cases named
  have linked := proper.closed.has_of_named? (ClassTable.has_of_slot used) named
  refine .member refers ((restores.nameAndType_iff known).mpr read) restored ?_
  rw [member?_withPool (brings.changes.proper proper).closed (brings.has proper),
    (brings.changes.caches proper).classes.member? proper.closed linked]
  exact found

theorem resolves_restored (resolves : Resolves machine reader target index resolved) :
    Resolves (machine.withPool owner pool) reader target index resolved := by
  have interned : ∀ text ref, Returns (internString text) (machine.withPool owner pool) ref ↔
      Returns (internString text) machine ref :=
    fun text ref => (overlooks_internString (unnoticed_withPool owner pool) text).returns_iff known
  cases resolves with
  | held held answers =>
      rcases restores.slots known reader index with same | ⟨-, denotes⟩
      · exact .held (same.trans held) answers
      · rw [held] at denotes
        cases answers with
        | cls id =>
            obtain ⟨other, brings⟩ := (Brings.held held).restored known restores
            exact .cls brings
        | string ref =>
            obtain ⟨textIndex, text, symbolic, read, found⟩ := denotes.exists_text
            exact .string symbolic ((restores.utf8_iff known).mpr read)
              ((interned text ref).mpr ⟨machine, internString_of_found found⟩)
        | field field =>
            obtain ⟨classIndex, natIndex, refers⟩ := denotes.exists_refers (.field field) (.inl rfl)
            exact resolves_of_denotes known restores proper denotes refers
        | method method =>
            obtain ⟨classIndex, natIndex, refers⟩ := denotes.exists_refers (.method method) (.inr rfl)
            exact resolves_of_denotes known restores proper denotes refers
  | cls brings =>
      obtain ⟨other, brings⟩ := brings.restored known restores
      exact .cls brings
  | string held read interns =>
      exact .string (restores.slot_of_isReference known trivial held)
        ((restores.utf8_iff known).mpr read) ((interned _ _).mpr interns)
  | member refers read brings found =>
      have symbolic := restores.slot_of_isReference known refers.isReference rfl
      obtain ⟨other, restored⟩ := brings.restored known restores
      refine .member (symbolic.symm ▸ refers) ((restores.nameAndType_iff known).mpr read) restored ?_
      rw [member?_withPool (brings.changes.proper proper).closed (brings.has proper)]
      exact found

theorem resolves_of_restored
    (resolves : Resolves (machine.withPool owner pool) reader target index resolved) :
    Resolves machine reader target index resolved := by
  cases resolves with
  | held held answers =>
      rcases restores.slots known reader index with same | ⟨-, denotes⟩
      · exact .held (same.symm.trans held) answers
      · rw [held] at denotes
        exact (answers.not_isReference denotes.isReference).elim
  | cls brings =>
      obtain ⟨last, other, brings, -⟩ := brings.of_restored known restores
      exact .cls brings
  | @string _ textIndex text ref held read interns =>
      rw [restores.utf8_iff known] at read
      rw [(overlooks_internString (unnoticed_withPool owner pool) text).returns_iff known] at interns
      rcases restores.slots known reader index with same | ⟨-, denotes⟩
      · exact .string (same.symm.trans held) read interns
      · rw [held] at denotes
        obtain ⟨other, canonical, readToo, found, holds⟩ := denotes.exists_string
        cases read.symm.trans readToo
        cases interns.unique ⟨machine, internString_of_found found⟩
        exact .held holds (.string ref)
  | member refers read brings found =>
      rcases restores.slots known reader index with same | ⟨-, denotes⟩
      · rw [restores.nameAndType_iff known] at read
        obtain ⟨last, other, plain, rfl⟩ := brings.of_restored known restores
        rw [member?_withPool (plain.changes.proper proper).closed (plain.has proper)] at found
        exact .member (same ▸ refers) read plain found
      · -- the same reference cannot resolve to two members
        have holds := (returns_of_resolves (.member refers read brings found)).unique
          (returns_of_resolves (resolves_of_denotes known restores proper denotes refers))
        exact .held holds.symm (ClassTable.answers_of_member? found)

/-- With constants restored, resolution returns what it returns without. -/
theorem returns_resolve_withPool (reader : ClassId) (target : ResolutionTarget) (index : UInt16)
    (resolved : Constant) :
    Returns (resolve target reader index) (machine.withPool owner pool) resolved ↔
      Returns (resolve target reader index) machine resolved := by
  rw [returns_resolve_iff, returns_resolve_iff]
  exact ⟨resolves_of_restored known restores proper, resolves_restored known restores proper⟩

end

end Guest

end Jvm
