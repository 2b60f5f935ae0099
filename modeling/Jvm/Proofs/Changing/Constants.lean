import Jvm.Proofs.Changing.Objects
import Jvm.Proofs.Machine.Frames

/-!
# Resolution and initialization keep objects in shape

A constant is only ever replaced by what it denotes: the class of its name, the canonical
string of its text, or the member that is found from the class that it names. The start of
an initialization resolves constants and writes to static fields.
-/

namespace Jvm

open Machine

theorem ClassTable.has_of_slot {table : ClassTable} {owner : ClassId} {index : UInt16}
    (used : (table.get owner).pool.slot index ≠ .empty) : table.Has owner := by
  by_contra unknown
  have outside : table.get owner = default := by
    rw [get, Array.getD_eq_getD_getElem?, Array.getElem?_eq_none (Nat.le_of_not_lt unknown)]
    rfl
  rw [outside] at used
  exact used rfl

namespace Machine

/-- What a class's constant is replaced by. -/
theorem slot_setConstant {machine : Machine} {owner : ClassId} {index : UInt16}
    (used : (machine.cls owner).pool.slot index ≠ .empty) (constant : Constant) (other : UInt16) :
    ((machine.setConstant owner index constant).cls owner).pool.slot other =
      if index = other then constant else (machine.cls owner).pool.slot other := by
  have known : machine.registry.Has owner := ClassTable.has_of_slot used
  rw [cls, setConstant, modifyClass, modifyTable,
    ClassTable.get_modify machine.registry.toClassTable owner owner _ known, if_pos rfl]
  exact ConstantPool.slot_set_of_used used constant other

end Machine

namespace Guest

variable {scope : Scope} {α : Type}

/-! ## Resolution -/

theorem moves_ofLoad (loaded : Except LoadError α) (machine : Machine) :
    Moves (ShapedIn scope) (ofLoad loaded) machine fun value after =>
      loaded = .ok value ∧ after = machine := by
  cases loaded with
  | ok value => exact Moves.pure .refl ⟨rfl, rfl⟩
  | error error => exact Moves.throw .refl

theorem moves_constantAt (id : ClassId) (index : UInt16) (machine : Machine) :
    Moves (ShapedIn scope) (constantAt id index) machine fun constant after =>
      (after.cls id).pool.slot index = constant := by
  refine Moves.get_bind ((moves_ofLoad _ machine).mono ?_)
  rintro constant after - ⟨held, rfl⟩
  exact ((ConstantPool.get_eq_ok_iff _ _ _).mp held).1

theorem paces_constantAt (id : ClassId) (index : UInt16) : PacesIn scope (constantAt id index) :=
  fun machine => (moves_constantAt id index machine).mono fun _ _ _ _ => trivial

/-- A constant is replaced by what it denotes, and that is found there. -/
theorem slot_remembered {machine : Machine} {id : ClassId} {index : UInt16} {resolved : Constant}
    (denotes : machine.Denotes id ((machine.cls id).pool.slot index) resolved) :
    ((machine.setConstant id index resolved).cls id).pool.slot index = resolved := by
  have used : (machine.cls id).pool.slot index ≠ .empty := fun empty =>
    (empty ▸ ClassTable.Denotes.isReference denotes : Constant.IsReference .empty)
  rw [slot_setConstant used, if_pos rfl]

theorem moves_remember {machine : Machine} {id : ClassId} {index : UInt16} {resolved : Constant}
    (denotes : machine.Denotes id ((machine.cls id).pool.slot index) resolved) :
    Moves (ShapedIn scope) (remember id index resolved) machine
      fun _ after => after = machine.setConstant id index resolved :=
  Moves.modify (.single (.resolve denotes)) rfl

/-- Whether a class constant is resolved, and all constants that are no class constants are
where they were. -/
structure Links (id : ClassId) (index : UInt16) (before after : Machine)
    (resolved : ClassId) : Prop where
  held : (after.cls id).pool.slot index = .resolvedClass resolved
  others : ∀ other, (∀ nameIndex, (before.cls id).pool.slot other ≠ .cls nameIndex) →
    (after.cls id).pool.slot other = (before.cls id).pool.slot other

theorem Links.named {id resolved : ClassId} {index : UInt16} {before after : Machine}
    (links : Links id index before after resolved) :
    after.registry.named? id index = some resolved := by
  rw [ClassTable.named?, ← cls, links.held]

theorem Links.has {id resolved : ClassId} {index : UInt16} {before after : Machine}
    (links : Links id index before after resolved)
    (closed : after.registry.toClassTable.Closed) : after.registry.Has resolved := by
  have owner : after.registry.Has id := ClassTable.has_of_slot fun empty =>
    nomatch links.held.symm.trans empty
  exact closed.has_of_named? owner links.named

theorem moves_linkClass (id : ClassId) (index : UInt16) (machine : Machine) :
    Moves (ShapedIn scope) (linkClass id index) machine fun loaded after =>
      ∀ resolved, loaded = .ok resolved → Links id index machine after resolved := by
  refine Moves.get_bind ?_
  dsimp only
  split
  next => exact Moves.pure .refl nofun
  next resolved held =>
      have slot := ((ConstantPool.get_eq_ok_iff _ _ _).mp held).1
      refine Moves.pure .refl fun _ same => ⟨?_, fun _ _ => rfl⟩
      cases same
      exact slot
  next nameIndex held =>
      have slot := ((ConstantPool.get_eq_ok_iff _ _ _).mp held).1
      have known : machine.registry.Has id := ClassTable.has_of_slot fun empty =>
        nomatch slot.symm.trans empty
      split
      next => exact Moves.pure .refl nofun
      next name read =>
          refine (moves_loadRaw name machine).bind ?_
          rintro loaded after - ⟨prefixes, found⟩
          have same : after.cls id = machine.cls id := prefixes.classes id known
          cases loaded with
          | error error => exact Moves.pure .refl nofun
          | ok resolved =>
              have denotes : after.Denotes id ((after.cls id).pool.slot index)
                  (.resolvedClass resolved) := by
                rw [same, slot]
                exact .cls ((congrArg (fun cls => cls.pool.utf8 nameIndex) same).trans read)
                  (found resolved rfl)
              have used : (after.cls id).pool.slot index ≠ .empty := by
                rw [same, slot]
                nofun
              refine (moves_remember denotes).bind ?_
              rintro - final - rfl
              refine Moves.pure .refl fun _ equal => ⟨?_, fun other symbolic => ?_⟩
              · cases equal
                exact slot_remembered denotes
              · rw [slot_setConstant used, if_neg, same]
                rintro rfl
                exact symbolic nameIndex slot
  next => exact Moves.pure .refl nofun

theorem paces_linkClass (id : ClassId) (index : UInt16) : PacesIn scope (linkClass id index) :=
  fun machine => (moves_linkClass id index machine).mono fun _ _ _ _ => trivial

theorem paces_orMissingClass (loaded : Except LoadError ClassId) :
    PacesIn scope (orMissingClass loaded) := by
  rw [orMissingClass.eq_def]
  split
  · exact .pure _
  · exact paces_raise _ _
  · exact paces_fatal _

theorem moves_resolveClass (id : ClassId) (index : UInt16) (machine : Machine) :
    Moves (ShapedIn scope) (resolveClass id index) machine
      fun resolved after => Links id index machine after resolved := by
  refine (moves_linkClass id index machine).bind fun loaded after _ links => ?_
  cases loaded with
  | ok resolved => exact Moves.pure .refl (links resolved rfl)
  | error error =>
      cases error with
      | notFound name => exact moves_raise _ _ _ _
      | _ => exact Moves.throw .refl

theorem paces_resolveClass (id : ClassId) (index : UInt16) :
    PacesIn scope (resolveClass id index) :=
  (paces_linkClass id index).bind paces_orMissingClass

theorem paces_loadClass (name : String) : PacesIn scope (loadClass name) :=
  (paces_loadRaw name).bind paces_orMissingClass

theorem paces_arrayClassOf (component : ClassId) : PacesIn scope (arrayClassOf component) :=
  PacesIn.bind (fun _ => Moves.of_ok rfl (shapes_arrayOf component) trivial) paces_orMissingClass

/-- What is read of a member before its class is resolved is still there afterwards. -/
theorem nameAndType_of_member {pool : ConstantPool} {index : UInt16} {member : ConstantPool.Member}
    (read : pool.member index = .ok member) :
    ∃ natIndex, (pool.slot index = .fieldRef member.classIndex natIndex ∨
        pool.slot index = .methodRef member.classIndex natIndex ∨
        pool.slot index = .interfaceMethodRef member.classIndex natIndex) ∧
      pool.nameAndType natIndex = .ok (member.name, member.descriptor) := by
  rw [ConstantPool.member, ConstantPool.get] at read
  cases held : pool.slot index with
  | fieldRef classIndex natIndex =>
      rw [held] at read
      obtain ⟨_, ⟨⟩, read⟩ := Except.bind_eq_ok.mp read
      obtain ⟨⟨name, descriptor⟩, named, ⟨⟩⟩ := Except.bind_eq_ok.mp read
      exact ⟨natIndex, .inl rfl, named⟩
  | methodRef classIndex natIndex =>
      rw [held] at read
      obtain ⟨_, ⟨⟩, read⟩ := Except.bind_eq_ok.mp read
      obtain ⟨⟨name, descriptor⟩, named, ⟨⟩⟩ := Except.bind_eq_ok.mp read
      exact ⟨natIndex, .inr (.inl rfl), named⟩
  | interfaceMethodRef classIndex natIndex =>
      rw [held] at read
      obtain ⟨_, ⟨⟩, read⟩ := Except.bind_eq_ok.mp read
      obtain ⟨⟨name, descriptor⟩, named, ⟨⟩⟩ := Except.bind_eq_ok.mp read
      exact ⟨natIndex, .inr (.inr rfl), named⟩
  | _ =>
      rw [held] at read
      cases read

/-- The class that a member reference names is linked, and the reference and what it names
the member by are still there. -/
theorem Links.member {id owner : ClassId} {index : UInt16} {before after : Machine}
    {member : ConstantPool.Member} (links : Links id member.classIndex before after owner)
    (read : (before.cls id).pool.member index = .ok member) :
    ∃ natIndex, (after.cls id).pool.slot index = (before.cls id).pool.slot index ∧
      ((before.cls id).pool.slot index = .fieldRef member.classIndex natIndex ∨
        (before.cls id).pool.slot index = .methodRef member.classIndex natIndex ∨
        (before.cls id).pool.slot index = .interfaceMethodRef member.classIndex natIndex) ∧
      (after.cls id).pool.nameAndType natIndex = .ok (member.name, member.descriptor) := by
  obtain ⟨natIndex, refers, named⟩ := nameAndType_of_member read
  have keeps : (before.cls id).pool.Keeps (after.cls id).pool := fun other settled =>
    links.others other fun nameIndex held => settled (held ▸ trivial)
  refine ⟨natIndex, links.others index fun nameIndex held => ?_, refers, keeps.nameAndType named⟩
  rw [held] at refers
  rcases refers with differs | differs | differs <;> cases differs

/-- A reference to a field is replaced by the field that is found. -/
theorem moves_resolveField (id : ClassId) (index : UInt16) (machine : Machine) :
    Moves (ShapedIn scope) (resolveField id index) machine fun resolved after =>
      (after.cls id).pool.slot index = .resolvedField resolved := by
  refine (moves_constantAt id index machine).bind fun constant machine _ slot => ?_
  split
  next => exact Moves.pure .refl slot
  next =>
      refine Moves.get_bind ((moves_ofLoad _ machine).bind ?_)
      rintro member machine - ⟨read, rfl⟩
      refine (moves_resolveClass id member.classIndex machine).bind ?_
      intro owner after _ links
      obtain ⟨natIndex, same, refers, named⟩ := links.member read
      refine Moves.get_bind ?_
      dsimp only
      split
      next declaring field found =>
          have denotes : after.Denotes id ((after.cls id).pool.slot index)
              (.resolvedField ⟨declaring, field.slot, field.kind, field.isStatic⟩) := by
            rw [same]
            rcases refers with held | held | held
            · rw [held]
              exact .field named links.named found
            · cases slot.symm.trans held
            · cases slot.symm.trans held
          refine (moves_remember denotes).bind ?_
          rintro - _ - rfl
          exact Moves.pure .refl (slot_remembered denotes)
      next => exact moves_raise _ _ after _
  next => exact Moves.throw .refl

theorem paces_resolveField (id : ClassId) (index : UInt16) :
    PacesIn scope (resolveField id index) :=
  fun machine => (moves_resolveField id index machine).mono fun _ _ _ _ => trivial

/-- A reference to a method that is found is replaced by it. -/
theorem moves_findMethod {id : ClassId} {index : UInt16} {machine : Machine}
    (refers : ∃ classIndex natIndex, (machine.cls id).pool.slot index = .methodRef classIndex natIndex ∨
      (machine.cls id).pool.slot index = .interfaceMethodRef classIndex natIndex) :
    Moves (ShapedIn scope) (findMethod id index) machine
      fun resolved after => (after.cls id).pool.slot index = .resolvedMethod resolved := by
  refine Moves.get_bind ((moves_ofLoad _ machine).bind ?_)
  rintro member machine - ⟨read, rfl⟩
  refine (moves_resolveClass id member.classIndex machine).bind ?_
  intro owner after _ links
  obtain ⟨natIndex, same, held, named⟩ := links.member read
  refine Moves.get_bind ?_
  dsimp only
  split
  next found looked =>
      have denotes : after.Denotes id ((after.cls id).pool.slot index)
          (.resolvedMethod ⟨found, (after.registry.method found).frameArgSlots,
            (after.registry.method found).isStatic⟩) := by
        refine .method ?_ named links.named looked
        rw [same]
        rcases held with field | method
        · obtain ⟨classIndex, natIndex, differs | differs⟩ := refers <;>
            cases field.symm.trans differs
        · exact method
      refine (moves_remember denotes).bind ?_
      rintro - _ - rfl
      exact Moves.pure .refl (slot_remembered denotes)
  next => exact moves_raise _ _ after _

theorem moves_resolveMethod (id : ClassId) (index : UInt16) (machine : Machine) :
    Moves (ShapedIn scope) (resolveMethod id index) machine fun resolved after =>
      (after.cls id).pool.slot index = .resolvedMethod resolved := by
  refine (moves_constantAt id index machine).bind fun constant machine _ slot => ?_
  split
  next => exact Moves.pure .refl slot
  next classIndex natIndex => exact moves_findMethod ⟨classIndex, natIndex, .inl slot⟩
  next classIndex natIndex => exact moves_findMethod ⟨classIndex, natIndex, .inr slot⟩
  next => exact Moves.throw .refl

theorem paces_resolveMethod (id : ClassId) (index : UInt16) :
    PacesIn scope (resolveMethod id index) :=
  fun machine => (moves_resolveMethod id index machine).mono fun _ _ _ _ => trivial

/-- A constant with a text is replaced by the canonical string of the text. -/
theorem moves_resolveString (id : ClassId) (index : UInt16) (machine : Machine) :
    Moves (ShapedIn scope) (resolveString id index) machine fun ref after =>
      (after.cls id).pool.slot index = .resolvedString ref := by
  refine (moves_constantAt id index machine).bind fun constant machine _ slot => ?_
  split
  next => exact Moves.pure .refl slot
  next textIndex =>
      refine Moves.get_bind ((moves_ofLoad _ machine).bind ?_)
      rintro text machine - ⟨read, rfl⟩
      refine (moves_internString text machine).bind ?_
      rintro ref after - ⟨canonical, same⟩
      have denotes : after.Denotes id ((after.cls id).pool.slot index) (.resolvedString ref) := by
        rw [cls, same, ← cls, slot]
        refine .string ?_ canonical
        rw [same]
        exact read
      refine (moves_remember denotes).bind ?_
      rintro - _ - rfl
      exact Moves.pure .refl (slot_remembered denotes)
  next => exact Moves.throw .refl

theorem paces_resolveString (id : ClassId) (index : UInt16) :
    PacesIn scope (resolveString id index) :=
  fun machine => (moves_resolveString id index machine).mono fun _ _ _ _ => trivial

/-! ## Initialization -/

theorem paces_onThrow {step : Guest α} {change : Machine → Machine} (paces : PacesIn scope step)
    (counts : ∀ machine, ShapedIn scope machine (change machine)) :
    PacesIn scope (onThrow step change) :=
  fun machine => moves_onThrow (paces machine) fun after reached => reached.trans (counts after)

theorem paces_initialValue (id : ClassId) (kind : Kind) (index : UInt16) :
    PacesIn scope (initialValue id kind index) := by
  refine PacesIn.get.bind fun machine => ?_
  dsimp only
  split
  · exact (paces_ofLoad _).bind fun _ => .pure _
  · exact (paces_ofLoad _).bind fun _ => .pure _
  · exact (paces_ofLoad _).bind fun _ => .pure _
  · exact (paces_resolveString id index).bind fun _ => .pure _
  · exact (paces_ofLoad _).bind fun _ => .pure _

/-- A class's static fields and state change. -/
theorem paces_modifyClass (id : ClassId) {change : Class → Class}
    (same : ∀ cls : Class, cls.Resembles (change cls))
    (pools : ∀ cls : Class, (change cls).pool = cls.pool)
    (monitors : ∀ cls : Class, (change cls).monitor = cls.monitor)
    (fixed : ∀ cls : Class, (change cls).fixed = cls.fixed) :
    PacesIn scope (modify fun machine => machine.modifyClass id change : Guest PUnit) :=
  .modify fun _ => shapes_modifyClass id (same _) pools monitors fixed

theorem paces_putStatic (id : ClassId) (slot : Nat) (value : Value) :
    PacesIn scope (putStatic id slot value) :=
  paces_modifyClass id (fun _ => ⟨rfl, rfl, rfl, rfl, rfl, rfl, rfl, rfl, rfl, fun _ held => held⟩)
    (fun _ => rfl) (fun _ => rfl) fun _ => rfl

theorem paces_storeInitialValues (id : ClassId) (values : List (Field × UInt16)) :
    PacesIn scope (storeInitialValues id values) := by
  induction values with
  | nil => exact .pure _
  | cons value rest ih =>
      exact (paces_initialValue id _ _).bind fun _ => (paces_putStatic id _ _).bind fun _ => ih

theorem paces_prepareStatics (id : ClassId) : PacesIn scope (prepareStatics id) := by
  refine PacesIn.bind (paces_modifyClass id ?_ (fun _ => rfl) (fun _ => rfl) fun _ => rfl) fun _ =>
    PacesIn.get.bind fun _ => paces_storeInitialValues id _
  exact fun _ => ⟨rfl, rfl, rfl, rfl, rfl, rfl, rfl, rfl, rfl, fun _ held => held⟩

theorem shapes_setInitState (machine : Machine) (id : ClassId) (state : InitState) :
    ShapedIn scope machine (machine.modifyClass id fun cls => { cls with initState := state }) :=
  shapes_modifyClass id ⟨rfl, rfl, rfl, rfl, rfl, rfl, rfl, rfl, rfl, fun _ held => held⟩
    (fun _ => rfl) (fun _ => rfl) fun _ => rfl

theorem paces_setInitState (id : ClassId) (state : InitState) :
    PacesIn scope (setInitState id state) :=
  .modify fun machine => shapes_setInitState machine id state

theorem paces_pushFrame (frames : scope.frames) (id : MethodId) (callerPc returnPc : UInt32) :
    PacesIn scope (pushFrame id callerPc returnPc) := by
  refine PacesIn.get.bind fun machine => ?_
  dsimp only
  split
  · exact paces_fault _
  · split
    · exact paces_fault _
    · split
      · exact paces_raise _ _
      · exact .modify fun _ => .single (.frames frames rfl rfl rfl rfl)

theorem paces_pushInitializer (frames : scope.frames) (id : ClassId) (pc : UInt32) :
    PacesIn scope (pushInitializer id pc) := by
  refine PacesIn.get.bind fun machine => ?_
  split
  · exact .pure _
  · exact (paces_onThrow (paces_pushFrame frames _ _ _) fun _ =>
      shapes_setInitState _ _ _).bind fun _ => .pure _

theorem paces_initializeChain (frames : scope.frames) (chain : List ClassId) (pc : UInt32) :
    PacesIn scope (initializeChain chain pc) := by
  induction chain generalizing pc with
  | nil => exact .pure _
  | cons id above ih =>
      refine PacesIn.get.bind fun machine => ?_
      split
      · exact .pure _
      · exact .pure _
      · exact PacesIn.get.bind fun _ => paces_raise _ _
      · refine (paces_prepareStatics id).bind fun _ => (paces_setInitState id _).bind fun _ =>
          (paces_pushInitializer frames id pc).bind fun pushed => ?_
        refine (paces_onThrow (ih _) fun middle => ?_).bind fun pushedAbove => ?_
        · split
          · exact .refl
          · exact shapes_setInitState _ _ _
        · split
          · exact (paces_setInitState id _).bind fun _ => .pure _
          · exact .pure _

theorem paces_ensureInitialized (frames : scope.frames) (id : ClassId) (pc : UInt32) :
    PacesIn scope (ensureInitialized id pc) := by
  refine PacesIn.get.bind fun machine => ?_
  split
  · exact .pure _
  · exact .pure _
  · exact paces_initializeChain frames _ _

end Guest

end Jvm
