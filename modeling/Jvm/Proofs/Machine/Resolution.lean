import Jvm.Machine.Access
import Jvm.Proofs.Machine.Allocation

/-!
# Resolution is calm

A constant resolves to a linked class, to a member of one or to a string, and
what is remembered of it holds linked ids only. So do the target of a call and
what class initialization stores.
-/

namespace Jvm.Guest

open Machine

variable {α : Type} {machine : Machine} {returned : α → Machine → Prop} (closed : machine.Closed)

include closed

theorem idsIn_of_get {id : ClassId} {index : UInt16} {constant : Constant}
    (found : (machine.cls id).pool.get index = .ok constant) :
    constant.IdsIn machine.registry.toClassTable := by
  obtain ⟨held, -⟩ := (ConstantPool.get_eq_ok_iff _ _ _).mp found
  rw [← held]
  exact (closed.registry.table.idsIn id).pool index

theorem calm_constantAt (id : ClassId) (index : UInt16) :
    Moves Calm (constantAt id index) machine
      fun constant after => constant.IdsIn after.registry.toClassTable :=
  Moves.get_bind (calm_ofLoad closed fun _ found => idsIn_of_get closed found)

theorem calm_remember (id : ClassId) (index : UInt16) {resolved : Constant}
    (ids : resolved.IdsIn machine.registry.toClassTable)
    (owns : ∀ field, resolved = .resolvedField field → machine.registry.toClassTable.Ordered →
      machine.registry.Has field.owner ∧ (machine.cls field.owner).array = none) :
    machine.Calm (machine.modifyClass id fun cls =>
      { cls with pool := cls.pool.set index resolved }) := by
  refine closed.calm_modifyTable (closed.registry.table.modify id ⟨rfl, rfl, rfl, rfl, rfl⟩ ?_)
    (ClassTable.growsTo_modify id ⟨rfl, rfl, rfl, rfl, rfl⟩)
    (ClassTable.rests_remember id index owns)
  intro known place
  have before := (closed.registry.table.classes id known).pool place
  simp only [ConstantPool.slot_set]
  split
  · exact ids
  · exact before

theorem calm_unresolvable (index : UInt16) (found : Constant) (wanted : ResolutionTarget) :
    Moves Calm (unresolvable index found wanted : Guest α) machine returned :=
  calm_fatal closed _

/-! ## Classes -/

theorem calm_linkClass (id : ClassId) (index : UInt16) :
    Moves Calm (linkClass id index) machine
      fun loaded after => ∀ cls, loaded = .ok cls → after.registry.Has cls := by
  have failure : ∀ error : LoadError,
      Moves Calm (pure (.error error) : Guest (Except LoadError ClassId)) machine
        fun loaded after => ∀ cls, loaded = .ok cls → after.registry.Has cls := by
    intro error
    refine Moves.pure closed.calm_refl ?_
    rintro cls ⟨⟩
  refine Moves.get_bind ?_
  simp only
  split
  next error _ => exact failure error
  next resolved found =>
      refine Moves.pure closed.calm_refl ?_
      rintro cls ⟨⟩
      exact idsIn_of_get closed found
  next nameIndex _ =>
      split
      next error _ => exact failure error
      next name _ =>
          refine (calm_loadRaw closed name).bind ?_
          intro loaded after calm has
          cases loaded with
          | error error =>
              refine Moves.pure calm.closed.calm_refl ?_
              rintro cls ⟨⟩
          | ok resolved =>
              have known := has resolved rfl
              have remembered := calm_remember calm.closed id index
                (show (Constant.resolvedClass resolved).IdsIn _ from known) nofun
              refine Moves.modify_bind remembered (Moves.pure remembered.closed.calm_refl ?_)
              rintro cls ⟨⟩
              exact remembered.grows.has known
  next => exact failure _

theorem calm_orMissingClass {loaded : Except LoadError ClassId}
    (has : ∀ id, loaded = .ok id → machine.registry.Has id) :
    Moves Calm (orMissingClass loaded) machine fun id after => after.registry.Has id := by
  cases loaded with
  | ok id => exact Moves.pure closed.calm_refl (has id rfl)
  | error error =>
      rw [orMissingClass.eq_def]
      split
      next => exact Moves.pure closed.calm_refl (has _ ‹_›)
      next => exact calm_raise closed _ _
      next => exact calm_fatal closed _

theorem calm_resolveClass (id : ClassId) (index : UInt16) :
    Moves Calm (resolveClass id index) machine fun cls after => after.registry.Has cls := by
  refine (calm_linkClass closed id index).bind ?_
  intro loaded after calm has
  exact calm_orMissingClass calm.closed has

theorem calm_loadClass (name : String) :
    Moves Calm (loadClass name) machine fun cls after => after.registry.Has cls := by
  refine (calm_loadRaw closed name).bind ?_
  intro loaded after calm has
  exact calm_orMissingClass calm.closed has

theorem calm_arrayClassOf (component : ClassId) :
    Moves Calm (arrayClassOf component) machine fun cls after => after.registry.Has cls := by
  refine (calm_linking closed (Registry.links_arrayOf closed.registry component)).bind ?_
  intro loaded after calm has
  exact calm_orMissingClass calm.closed has

/-! ## Members and strings -/

/-- A member is looked up once the class that should have it is linked. -/
theorem calm_member_bind (id : ClassId) (index : UInt16) {α : Type}
    {lookup : ConstantPool.Member → ClassId → Guest α} {returned : α → Machine → Prop}
    (looks : ∀ member owner {after}, machine.Calm after → after.registry.Has owner →
      Moves Calm (lookup member owner) after returned) :
    Moves Calm (do
      let member ← ofLoad (((← get).cls id).pool.member index)
      let owner ← resolveClass id member.classIndex
      lookup member owner) machine returned := by
  have symbolic : Moves Calm (ofLoad ((machine.cls id).pool.member index)) machine
      fun _ _ => True := calm_ofLoad closed fun _ _ => trivial
  refine Moves.get_bind (symbolic.bind ?_)
  intro member first named _
  refine (calm_resolveClass named.closed id member.classIndex).bind ?_
  exact fun owner after linked => looks member owner (named.trans linked)

/-- A field that a constant names belongs to a class that is there, and that is no array class where
classes are in order. -/
theorem calm_resolveField_plain (id : ClassId) (index : UInt16) :
    Moves Calm (resolveField id index) machine fun field after =>
      after.registry.Has field.owner ∧ (machine.registry.Ordered → machine.registry.Has id →
        (after.cls field.owner).array = none) := by
  have reads : Ends (constantAt id index) machine
      (fun constant after => (machine.cls id).pool.slot index = constant ∧ after = machine)
      fun _ _ => True := by
    rw [constantAt, ends_bind, ends_get]
    cases found : (machine.cls id).pool.get index with
    | ok constant =>
        exact ends_pure.mpr ⟨((ConstantPool.get_eq_ok_iff _ _ _).mp found).1, rfl⟩
    | error error => exact ends_throw.mpr trivial
  refine ((calm_constantAt closed id index).and_ends reads).bind ?_
  rintro constant first - ⟨ids, held, same⟩
  obtain rfl := same.symm
  split
  next field =>
      exact Moves.pure closed.calm_refl ⟨ids, fun ordered known =>
        (ordered.table.constants id index field known held).2⟩
  next =>
      refine calm_member_bind closed id index fun member owner third linked known => ?_
      refine Moves.get_bind ?_
      simp only
      split
      next declaring field declared =>
          have owns := ClassTable.has_of_lookupField linked.closed.registry.table known declared
          have plain (ordered : third.registry.toClassTable.Ordered) :=
            ClassTable.array_of_lookupField linked.closed.registry.table ordered known declared
          have remembered := calm_remember linked.closed id index
            (show (Constant.resolvedField ⟨declaring, field.slot, field.kind,
              field.isStatic⟩).IdsIn _ from owns) (by
                rintro _ ⟨⟩ ordered
                exact ⟨owns, plain ordered⟩)
          refine Moves.modify_bind remembered (Moves.pure remembered.closed.calm_refl
            ⟨remembered.grows.has owns, fun ordered _ => ?_⟩)
          refine (congrArg Class.array (ClassTable.get_modify _ id declaring _ owns)).trans ?_
          split <;> exact plain (linked.rests.ordered ordered).table
      next => exact calm_raise linked.closed _ _
  next => exact calm_unresolvable closed _ _ _

theorem calm_resolveField (id : ClassId) (index : UInt16) :
    Moves Calm (resolveField id index) machine
      fun field after => after.registry.Has field.owner :=
  (calm_resolveField_plain closed id index).mono fun _ _ _ named => named.1

theorem calm_resolveMethod (id : ClassId) (index : UInt16) :
    Moves Calm (resolveMethod id index) machine
      fun resolved after => after.registry.HasMethod resolved.method := by
  refine (calm_constantAt closed id index).bind ?_
  intro constant first found ids
  split
  case h_1 => exact Moves.pure found.closed.calm_refl ids
  case h_4 => exact calm_unresolvable found.closed _ _ _
  case h_2 | h_3 =>
    refine calm_member_bind found.closed id index fun member owner third linked known => ?_
    refine Moves.get_bind ?_
    simp only
    split
    next found declared =>
        have has := ClassTable.hasMethod_of_lookupMethod linked.closed.registry.table known declared
        have remembered := calm_remember linked.closed id index
          (show (Constant.resolvedMethod ⟨found, (third.registry.method found).frameArgSlots,
            (third.registry.method found).isStatic⟩).IdsIn _ from has) (by rintro _ ⟨⟩)
        exact Moves.modify_bind remembered
          (Moves.pure remembered.closed.calm_refl (remembered.grows.hasMethod has))
    next => exact calm_raise linked.closed _ _

theorem calm_resolveString (id : ClassId) (index : UInt16) :
    Moves Calm (resolveString id index) machine fun _ _ => True := by
  refine (calm_constantAt closed id index).bind ?_
  intro constant first found _
  split
  next => exact Moves.pure found.closed.calm_refl trivial
  next utf8Index _ =>
      refine Moves.get_bind ?_
      have symbolic : Moves Calm
          (ofLoad ((first.cls id).pool.utf8 utf8Index)) first fun _ _ => True :=
        calm_ofLoad found.closed fun _ _ => trivial
      refine symbolic.bind ?_
      intro text second named _
      refine (calm_internString named.closed text).bind ?_
      intro ref third interned _
      have remembered := calm_remember interned.closed id index
        (show (Constant.resolvedString ref).IdsIn _ from trivial) nofun
      exact Moves.modify_bind remembered (Moves.pure remembered.closed.calm_refl trivial)
  next => exact calm_unresolvable found.closed _ _ _

/-- The target of a call is a linked method. -/
theorem calm_selectTarget (mode : CallMode) (receiver : Ref) {resolved : MethodId}
    (linked : machine.registry.HasMethod resolved) :
    Moves Calm (selectTarget mode receiver resolved) machine
      fun target after => after.registry.HasMethod target ∧ (machine.registry.Ordered →
        (after.method target).name = (after.method resolved).name) := by
  have selects : Moves Calm (selectTarget .dispatch receiver resolved) machine
      fun target after => after.registry.HasMethod target ∧ (machine.registry.Ordered →
        (after.method target).name = (after.method resolved).name) := by
    rw [selectTarget.eq_def]
    refine Moves.get_bind ?_
    have live : Moves Calm (require (machine.heap.class? receiver) (.receiverNotLive receiver))
        machine fun cls after => after.registry.Has cls ∧ after.registry.HasMethod resolved :=
      calm_require closed _ fun cls found => ⟨closed.has_of_class? found, linked⟩
    refine live.bind ?_
    intro cls middle calm known
    obtain ⟨same, after, selected⟩ := calm.closed.registry.resolveVirtual known.1 known.2
    have grows : middle.registry.GrowsTo
        (middle.registry.resolveVirtual cls resolved).2.toClassTable := by
      rw [same]
      exact .refl _
    have chosen : Moves Calm (linking fun registry => registry.resolveVirtual cls resolved) middle
        fun target after => ∀ id, target = some id → after.registry.HasMethod id ∧
          (machine.registry.Ordered → (after.method id).name = (after.method resolved).name) := by
      refine Moves.of_ok rfl (calm.closed.calm_registry after grows
        (Registry.rests_resolveVirtual calm.closed.registry known.1 known.2)) ?_
      intro id found
      refine ⟨grows.hasMethod (selected id found), fun ordered => ?_⟩
      change ((middle.registry.resolveVirtual cls resolved).2.method id).name =
        ((middle.registry.resolveVirtual cls resolved).2.method resolved).name
      rw [same]
      exact Registry.name_of_resolveVirtual calm.closed.registry known.1
        (calm.rests.ordered ordered) found
    refine chosen.bind ?_
    intro target last moved has
    cases target with
    | some target => exact Moves.pure moved.closed.calm_refl (has target rfl)
    | none => exact Moves.get_bind (calm_raise moved.closed _ _)
  cases mode with
  | exact => exact Moves.pure closed.calm_refl ⟨linked, fun _ => rfl⟩
  | _ => exact selects

/-! ## Static fields -/

theorem calm_initialValue (id : ClassId) (kind : Kind) (index : UInt16) :
    Moves Calm (initialValue id kind index) machine fun _ _ => True := by
  have literal : ∀ {γ : Type} (loaded : Except LoadError γ) (wrap : γ → Value),
      Moves Calm (do pure (wrap (← ofLoad loaded)) : Guest Value) machine fun _ _ => True := by
    intro γ loaded wrap
    have loads : Moves Calm (ofLoad loaded) machine fun _ _ => True :=
      calm_ofLoad closed fun _ _ => trivial
    refine loads.bind ?_
    intro _ after calm _
    exact Moves.pure calm.closed.calm_refl trivial
  refine Moves.get_bind ?_
  cases kind with
  | long => exact literal _ Value.long
  | double => exact literal _ Value.double
  | float => exact literal _ Value.float
  | reference =>
      refine (calm_resolveString closed id index).bind ?_
      intro ref after calm _
      exact Moves.pure calm.closed.calm_refl trivial
  | _ => exact literal _ Value.int

theorem calm_putStatic (id : ClassId) (slot : Nat) (value : Value) :
    Moves Calm (putStatic id slot value) machine fun _ _ => True := by
  refine Moves.modify (closed.calm_modifyClass id (fun _ => ⟨rfl, rfl, rfl, rfl, rfl⟩)
    (fun _ => rfl) fun cls => ⟨rfl, rfl, rfl, rfl, ?_⟩) trivial
  intro prepared
  simp only [Class.Prepared, Option.map_map, Function.comp_def, Fields.size_write]
  exact prepared

theorem calm_storeInitialValues (id : ClassId) (values : List (Field × UInt16)) :
    Moves Calm (storeInitialValues id values) machine fun _ _ => True := by
  induction values generalizing machine with
  | nil => exact Moves.pure closed.calm_refl trivial
  | cons value values ih =>
      obtain ⟨field, index⟩ := value
      refine (calm_initialValue closed id field.kind index).bind ?_
      intro value middle calm _
      refine (calm_putStatic calm.closed id field.slot.toNat value).bind ?_
      intro _ after put _
      exact ih put.closed

/-- The static fields of a class exist once they are prepared. -/
theorem calm_prepareStatics {id : ClassId} (known : machine.registry.Has id) :
    Moves Calm (prepareStatics id) machine fun _ after => (after.cls id).Prepared := by
  have fresh := closed.calm_modifyClass id
    (show ∀ cls : Class, cls.SameShape
      { cls with statics := some (Fields.ofSize cls.staticSlots.toNat) } from
        fun _ => ⟨rfl, rfl, rfl, rfl, rfl⟩) (fun _ => rfl)
    fun cls => ⟨rfl, rfl, rfl, rfl, fun _ => congrArg some (Fields.size_ofSize _)⟩
  have exist : ((machine.modifyClass id fun cls =>
      { cls with statics := some (Fields.ofSize cls.staticSlots.toNat) }).cls id).Prepared := by
    have same : (machine.modifyClass id fun cls =>
        { cls with statics := some (Fields.ofSize cls.staticSlots.toNat) }).cls id =
          { machine.cls id with
            statics := some (Fields.ofSize (machine.cls id).staticSlots.toNat) } :=
      (ClassTable.get_modify _ id id _ known).trans (if_pos rfl)
    rw [same]
    exact congrArg some (Fields.size_ofSize _)
  refine Moves.modify_bind fresh (Moves.get_bind ?_)
  refine (calm_storeInitialValues fresh.closed id _).mono ?_
  exact fun _ after calm _ => calm.rests.table.prepared id (fresh.grows.has known) exist

end Jvm.Guest
