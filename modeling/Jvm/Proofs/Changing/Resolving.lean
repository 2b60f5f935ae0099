import Jvm.Proofs.Changing.Constants

/-!
# What resolution returns

Resolution returns what a pool holds already, the class that a class constant brings about,
the canonical string of a text, or the member that is found from the class that a reference
names; in any other case it does not return.
-/

namespace Jvm

/-! ## Members and references to them -/

namespace ClassTable

/-- The constant for the member of a class that a reference to one of a kind finds. -/
def member? (table : ClassTable) (holder : ClassId) (name descriptor : String) :
    ResolutionTarget → Option Constant
  | .field => (table.lookupField holder name descriptor).map fun (declaring, field) =>
      .resolvedField ⟨declaring, field.slot, field.kind, field.isStatic⟩
  | .method => (table.lookupMethod holder name descriptor).map fun found =>
      .resolvedMethod ⟨found, (table.method found).frameArgSlots, (table.method found).isStatic⟩
  | .cls => none
  | .string => none

/-- A member that was found is found as long as classes last. -/
theorem Resembles.member? {before after : ClassTable} (same : before.Resembles after)
    (closed : before.Closed) {holder : ClassId} (known : before.Has holder)
    (name descriptor : String) (target : ResolutionTarget) :
    after.member? holder name descriptor target = before.member? holder name descriptor target := by
  cases target with
  | field => rw [ClassTable.member?, ClassTable.member?, same.lookupField closed known]
  | method =>
      rw [ClassTable.member?, ClassTable.member?, same.lookupMethod closed known]
      cases found : before.lookupMethod holder name descriptor with
      | none => rfl
      | some method =>
          have linked := (hasMethod_of_lookupMethod closed known found).1
          simp only [Option.map_some, same.frameArgSlots linked, same.isStatic linked]
  | _ => rfl

end ClassTable

/-- Whether a constant refers to a member of a kind, by the indices of its class and of its
name and type. -/
inductive Constant.Refers : Constant → ResolutionTarget → UInt16 → UInt16 → Prop
  | field (classIndex natIndex : UInt16) :
      Refers (.fieldRef classIndex natIndex) .field classIndex natIndex
  | method (classIndex natIndex : UInt16) :
      Refers (.methodRef classIndex natIndex) .method classIndex natIndex
  | interfaceMethod (classIndex natIndex : UInt16) :
      Refers (.interfaceMethodRef classIndex natIndex) .method classIndex natIndex

/-- Whether a constant is what the resolution of one of a kind gives. -/
inductive Constant.Answers : ResolutionTarget → Constant → Prop
  | cls (id : ClassId) : Answers .cls (.resolvedClass id)
  | field (field : ResolvedField) : Answers .field (.resolvedField field)
  | method (method : ResolvedMethod) : Answers .method (.resolvedMethod method)
  | string (ref : Ref) : Answers .string (.resolvedString ref)

theorem Constant.Answers.not_isReference {target : ResolutionTarget} {constant : Constant}
    (answers : constant.Answers target) : ¬constant.IsReference := by
  cases answers <;> exact id

/-- What a reference to a member denotes is found from the class that it names. -/
theorem ClassTable.Denotes.exists_member {table : ClassTable} {strings : String → Option Ref}
    {owner : ClassId} {symbolic resolved : Constant} {target : ResolutionTarget}
    {classIndex natIndex : UInt16} (denotes : table.Denotes strings owner symbolic resolved)
    (refers : symbolic.Refers target classIndex natIndex) :
    ∃ name descriptor holder,
      (table.get owner).pool.nameAndType natIndex = .ok (name, descriptor) ∧
      table.named? owner classIndex = some holder ∧
      table.member? holder name descriptor target = some resolved := by
  cases refers with
  | field =>
      cases denotes with
      | field read named found =>
          refine ⟨_, _, _, read, named, ?_⟩
          rw [member?, found]
          rfl
      | method differs => rcases differs with differs | differs <;> cases differs
  | method =>
      cases denotes with
      | method same read named found =>
          rcases same with same | same
          · cases same
            refine ⟨_, _, _, read, named, ?_⟩
            rw [member?, found]
            rfl
          · cases same
  | interfaceMethod =>
      cases denotes with
      | method same read named found =>
          rcases same with same | same
          · cases same
          · cases same
            refine ⟨_, _, _, read, named, ?_⟩
            rw [member?, found]
            rfl

theorem ClassTable.Denotes.exists_refers {table : ClassTable} {strings : String → Option Ref}
    {owner : ClassId} {symbolic resolved : Constant} {target : ResolutionTarget}
    (denotes : table.Denotes strings owner symbolic resolved) (answers : resolved.Answers target)
    (member : target = .field ∨ target = .method) :
    ∃ classIndex natIndex, symbolic.Refers target classIndex natIndex := by
  cases denotes with
  | cls =>
      cases answers
      rcases member with differs | differs <;> cases differs
  | string =>
      cases answers
      rcases member with differs | differs <;> cases differs
  | field =>
      cases answers
      exact ⟨_, _, .field _ _⟩
  | method same =>
      cases answers
      rcases same with rfl | rfl
      · exact ⟨_, _, .method _ _⟩
      · exact ⟨_, _, .interfaceMethod _ _⟩

theorem ClassTable.Denotes.exists_answers {table : ClassTable} {strings : String → Option Ref}
    {owner : ClassId} {symbolic resolved : Constant}
    (denotes : table.Denotes strings owner symbolic resolved) :
    ∃ target, resolved.Answers target := by
  cases denotes with
  | cls => exact ⟨.cls, .cls _⟩
  | string => exact ⟨.string, .string _⟩
  | field => exact ⟨.field, .field _⟩
  | method => exact ⟨.method, .method _⟩

theorem Constant.Refers.isReference {symbolic : Constant} {target : ResolutionTarget}
    {classIndex natIndex : UInt16} (refers : symbolic.Refers target classIndex natIndex) :
    symbolic.IsReference := by
  cases refers <;> trivial

theorem ClassTable.answers_of_member? {table : ClassTable} {holder : ClassId}
    {name descriptor : String} {target : ResolutionTarget} {resolved : Constant}
    (found : table.member? holder name descriptor target = some resolved) :
    resolved.Answers target := by
  cases target with
  | cls => cases found
  | string => cases found
  | field =>
      obtain ⟨_, -, rfl⟩ := Option.map_eq_some_iff.mp found
      exact .field _
  | method =>
      obtain ⟨_, -, rfl⟩ := Option.map_eq_some_iff.mp found
      exact .method _

namespace Guest

open Machine

/-- Resolves the constant at an index of a class's pool, and gives it as the constant that
takes its place. -/
def resolve (target : ResolutionTarget) (owner : ClassId) (index : UInt16) : Guest Constant :=
  match target with
  | .cls => do pure (.resolvedClass (← resolveClass owner index))
  | .field => do pure (.resolvedField (← resolveField owner index))
  | .method => do pure (.resolvedMethod (← resolveMethod owner index))
  | .string => do pure (.resolvedString (← resolveString owner index))

section

variable {owner : ClassId} {index : UInt16} {machine : Machine}

/-- What resolution returns has taken the place of the constant. -/
theorem moves_resolve (target : ResolutionTarget) (owner : ClassId) (index : UInt16)
    (machine : Machine) :
    Moves Shapes (resolve target owner index) machine fun resolved after =>
      resolved.Answers target ∧ (after.cls owner).pool.slot index = resolved := by
  cases target with
  | cls =>
      exact (moves_resolveClass owner index machine).bind fun id after _ links =>
        Moves.pure .refl ⟨.cls id, links.held⟩
  | field =>
      exact (moves_resolveField owner index machine).bind fun field after _ held =>
        Moves.pure .refl ⟨.field field, held⟩
  | method =>
      exact (moves_resolveMethod owner index machine).bind fun method after _ held =>
        Moves.pure .refl ⟨.method method, held⟩
  | string =>
      exact (moves_resolveString owner index machine).bind fun ref after _ held =>
        Moves.pure .refl ⟨.string ref, held⟩

theorem paces_resolve (target : ResolutionTarget) (owner : ClassId) (index : UInt16) :
    Paces (resolve target owner index) :=
  fun machine => (moves_resolve target owner index machine).mono fun _ _ _ _ => trivial

theorem walks_resolve (target : ResolutionTarget) (owner : ClassId) (index : UInt16) :
    Walks (resolve target owner index) :=
  (paces_resolve target owner index).walks

/-! ## Classes -/

/-- Whether a constant brings a class about: it holds the class already, or the class of its
name is loaded and takes its place. -/
inductive Brings (machine : Machine) (owner : ClassId) (index : UInt16) (id : ClassId) :
    Machine → Prop
  | held (held : (machine.cls owner).pool.slot index = .resolvedClass id) :
      Brings machine owner index id machine
  | loaded {nameIndex : UInt16} {name : String} {registry : Registry}
      (held : (machine.cls owner).pool.slot index = .cls nameIndex)
      (read : (machine.cls owner).pool.utf8 nameIndex = .ok name)
      (loads : machine.registry.load name = (.ok id, registry)) :
      Brings machine owner index id
        (setConstant { machine with registry } owner index (.resolvedClass id))

theorem get_of_slot {constant : Constant} (held : (machine.cls owner).pool.slot index = constant)
    (used : constant ≠ .empty) : (machine.cls owner).pool.get index = .ok constant :=
  (ConstantPool.get_eq_ok_iff _ _ _).mpr ⟨held, used⟩

theorem linkClass_of_brings {id : ClassId} {after : Machine}
    (brings : Brings machine owner index id after) :
    linkClass owner index machine = .ok (.ok id) after := by
  cases brings with
  | held held =>
      have got := get_of_slot held (by rintro ⟨⟩)
      simp only [linkClass, bind, EStateM.bind, run_get, got]
      rfl
  | loaded held read loads =>
      have got := get_of_slot held (by rintro ⟨⟩)
      simp only [linkClass, bind, EStateM.bind, run_get, got, read, loadRaw, linking, loads]
      rfl

theorem ends_linkClass (owner : ClassId) (index : UInt16) (machine : Machine) :
    Ends (linkClass owner index) machine
      (fun loaded after => ∀ id, loaded = .ok id → Brings machine owner index id after)
      fun _ _ => True := by
  rw [linkClass, ends_bind, ends_get]
  dsimp only
  split
  next => exact ends_pure.mpr (by rintro _ ⟨⟩)
  next resolved got =>
      refine ends_pure.mpr ?_
      rintro id ⟨⟩
      exact .held ((ConstantPool.get_eq_ok_iff _ _ _).mp got).1
  next nameIndex got =>
      have held := ((ConstantPool.get_eq_ok_iff _ _ _).mp got).1
      split
      next => exact ends_pure.mpr (by rintro _ ⟨⟩)
      next name read =>
          cases loads : machine.registry.load name with
          | mk loaded registry =>
              have ran : loadRaw name machine = .ok loaded { machine with registry } := by
                simp only [loadRaw, linking, loads]
              rw [ends_bind]
              apply Ends.of_ok ran
              cases loaded with
              | error error => exact ends_pure.mpr (by rintro _ ⟨⟩)
              | ok id =>
                  simp only [ends_bind, remember, ends_modify, ends_pure]
                  rintro _ ⟨⟩
                  exact .loaded held read loads
  next => exact ends_pure.mpr (by rintro _ ⟨⟩)

theorem resolveClass_eq_ok_iff {id : ClassId} {after : Machine} :
    resolveClass owner index machine = .ok id after ↔ Brings machine owner index id after := by
  constructor
  · intro ran
    have ends : Ends (resolveClass owner index) machine
        (fun id after => Brings machine owner index id after) fun _ _ => True := by
      rw [resolveClass, ends_bind]
      refine (ends_linkClass owner index machine).mono ?_ fun _ _ _ => trivial
      intro loaded after brings
      rw [orMissingClass.eq_def]
      split
      · exact ends_pure.mpr (brings _ rfl)
      · exact (@moves_raise .all _ _ _ after _).ends
      · exact ends_throw.mpr trivial
    exact ends_of_ok ran ends
  · intro brings
    rw [resolveClass, bind_of_ok (linkClass_of_brings brings)]
    rfl

/-! ## Members -/

theorem member_of_refers {pool : ConstantPool} {target : ResolutionTarget}
    {classIndex natIndex : UInt16} {name descriptor : String}
    (refers : (pool.slot index).Refers target classIndex natIndex)
    (read : pool.nameAndType natIndex = .ok (name, descriptor)) :
    pool.member index = .ok ⟨classIndex, name, descriptor⟩ := by
  rw [ConstantPool.member, ConstantPool.get]
  cases held : pool.slot index <;> rw [held] at refers <;> cases refers <;>
    simp only [bind, Except.bind, read] <;> rfl

theorem refers_of_member {pool : ConstantPool} {member : ConstantPool.Member}
    (read : pool.member index = .ok member) :
    ∃ target natIndex, (pool.slot index).Refers target member.classIndex natIndex ∧
      pool.nameAndType natIndex = .ok (member.name, member.descriptor) := by
  obtain ⟨natIndex, field | method | interfaceMethod, named⟩ := nameAndType_of_member read
  · exact ⟨.field, natIndex, field ▸ .field _ _, named⟩
  · exact ⟨.method, natIndex, method ▸ .method _ _, named⟩
  · exact ⟨.method, natIndex, interfaceMethod ▸ .interfaceMethod _ _, named⟩

/-! ## What is returned -/

/-- Whether the resolution of a constant to one of a kind has something to return. -/
inductive Resolves (machine : Machine) (owner : ClassId) :
    ResolutionTarget → UInt16 → Constant → Prop
  | held {target : ResolutionTarget} {index : UInt16} {resolved : Constant}
      (held : (machine.cls owner).pool.slot index = resolved) (answers : resolved.Answers target) :
      Resolves machine owner target index resolved
  | cls {index : UInt16} {id : ClassId} {after : Machine}
      (brings : Brings machine owner index id after) :
      Resolves machine owner .cls index (.resolvedClass id)
  | string {index textIndex : UInt16} {text : String} {ref : Ref}
      (held : (machine.cls owner).pool.slot index = .string textIndex)
      (read : (machine.cls owner).pool.utf8 textIndex = .ok text)
      (interns : Returns (internString text) machine ref) :
      Resolves machine owner .string index (.resolvedString ref)
  | member {target : ResolutionTarget} {index classIndex natIndex : UInt16}
      {name descriptor : String} {holder : ClassId} {after : Machine} {resolved : Constant}
      (refers : ((machine.cls owner).pool.slot index).Refers target classIndex natIndex)
      (read : (machine.cls owner).pool.nameAndType natIndex = .ok (name, descriptor))
      (brings : Brings machine owner classIndex holder after)
      (found : after.registry.member? holder name descriptor target = some resolved) :
      Resolves machine owner target index resolved

/-- What a pool holds already is returned, and nothing changes. -/
theorem resolve_of_held {target : ResolutionTarget} {resolved : Constant}
    (held : (machine.cls owner).pool.slot index = resolved) (answers : resolved.Answers target) :
    resolve target owner index machine = .ok resolved machine := by
  have got := get_of_slot held fun empty => nomatch (empty ▸ answers : Constant.empty.Answers target)
  cases answers with
  | cls id =>
      have ran : resolveClass owner index machine = .ok id machine :=
        resolveClass_eq_ok_iff.mpr (.held held)
      rw [resolve, bind_of_ok ran]
      rfl
  | _ =>
      simp only [resolve, resolveField, resolveMethod, findMethod, resolveString, constantAt, ofLoad, bind,
        EStateM.bind, run_get, got]
      rfl

/-- A reference to a member is resolved to the member that is found. -/
theorem returns_resolve_of_member {target : ResolutionTarget} {classIndex natIndex : UInt16}
    {name descriptor : String} {holder : ClassId} {after : Machine} {resolved : Constant}
    (refers : ((machine.cls owner).pool.slot index).Refers target classIndex natIndex)
    (read : (machine.cls owner).pool.nameAndType natIndex = .ok (name, descriptor))
    (brings : Brings machine owner classIndex holder after)
    (found : after.registry.member? holder name descriptor target = some resolved) :
    Returns (resolve target owner index) machine resolved := by
  have member := member_of_refers refers read
  have ran := resolveClass_eq_ok_iff.mpr brings
  generalize held : (machine.cls owner).pool.slot index = symbolic at refers
  cases refers with
  | field =>
      have got := get_of_slot held (by rintro ⟨⟩)
      obtain ⟨⟨declaring, field⟩, looked, rfl⟩ := Option.map_eq_some_iff.mp found
      simp only [Returns, resolve, resolveField, constantAt, ofLoad, bind, EStateM.bind, run_get,
        pure, EStateM.pure, got, member, ran, looked]
      exact ⟨_, rfl⟩
  | method | interfaceMethod =>
      have got := get_of_slot held (by rintro ⟨⟩)
      obtain ⟨method, looked, rfl⟩ := Option.map_eq_some_iff.mp found
      simp only [Returns, resolve, resolveMethod, findMethod, constantAt, ofLoad, bind, EStateM.bind, run_get,
        pure, EStateM.pure, got, member, ran, looked]
      exact ⟨_, rfl⟩

theorem returns_of_resolves {target : ResolutionTarget} {resolved : Constant}
    (resolves : Resolves machine owner target index resolved) :
    Returns (resolve target owner index) machine resolved := by
  cases resolves with
  | held held answers => exact ⟨machine, resolve_of_held held answers⟩
  | @cls _ _ after brings =>
      refine ⟨after, ?_⟩
      rw [resolve, bind_of_ok (resolveClass_eq_ok_iff.mpr brings)]
      rfl
  | string held read interns =>
      obtain ⟨after, interns⟩ := interns
      have got := get_of_slot held (by rintro ⟨⟩)
      simp only [Returns, resolve, resolveString, constantAt, ofLoad, bind, EStateM.bind, run_get,
        pure, EStateM.pure, got, read, interns]
      exact ⟨_, rfl⟩
  | member refers read brings found => exact returns_resolve_of_member refers read brings found

theorem ends_constantAt (owner : ClassId) (index : UInt16) (machine : Machine) :
    Ends (constantAt owner index) machine
      (fun constant after => after = machine ∧ (machine.cls owner).pool.slot index = constant)
      fun _ _ => True := by
  rw [constantAt, ends_bind, ends_get]
  refine (@moves_ofLoad .all _ _ machine).ends.mono ?_ fun _ _ _ => trivial
  rintro constant machine ⟨got, rfl⟩
  exact ⟨rfl, ((ConstantPool.get_eq_ok_iff _ _ _).mp got).1⟩

/-- A reference is read, and its class is resolved. -/
theorem ends_holder {α : Type} {next : ConstantPool.Member → ClassId → Guest α}
    {returned : α → Machine → Prop}
    (finds : ∀ target member natIndex holder after,
      ((machine.cls owner).pool.slot index).Refers target member.classIndex natIndex →
      (machine.cls owner).pool.nameAndType natIndex = .ok (member.name, member.descriptor) →
      Brings machine owner member.classIndex holder after →
      Ends (next member holder) after returned fun _ _ => True) :
    Ends (do
      let member ← ofLoad (((← get).cls owner).pool.member index)
      let holder ← resolveClass owner member.classIndex
      next member holder) machine returned fun _ _ => True := by
  rw [ends_bind, ends_get, ends_bind]
  refine (@moves_ofLoad .all _ _ machine).ends.mono ?_ fun _ _ _ => trivial
  rintro member machine ⟨read, rfl⟩
  obtain ⟨target, natIndex, refers, named⟩ := refers_of_member read
  rw [ends_bind]
  refine (ends_self _ _).mono (fun holder after ran => ?_) fun _ _ _ => trivial
  exact finds target member natIndex holder after refers named (resolveClass_eq_ok_iff.mp ran)

theorem ends_resolveField (owner : ClassId) (index : UInt16) (machine : Machine) :
    Ends (resolveField owner index) machine
      (fun field _ => Resolves machine owner .field index (.resolvedField field))
      fun _ _ => True := by
  rw [resolveField, ends_bind]
  refine (ends_constantAt owner index machine).mono ?_ fun _ _ _ => trivial
  rintro constant machine ⟨rfl, held⟩
  split
  next => exact ends_pure.mpr (.held held (.field _))
  next =>
      refine ends_holder fun target member natIndex holder after refers read brings => ?_
      rw [held] at refers
      cases refers
      rw [ends_bind, ends_get]
      dsimp only
      split
      next declaring field looked =>
          simp only [ends_bind, remember, ends_modify, ends_pure]
          refine .member (held ▸ .field _ _) read brings ?_
          rw [ClassTable.member?, looked]
          rfl
      next => exact (@moves_raise .all _ _ _ after _).ends
  next => exact ends_throw.mpr trivial

/-- A reference to a method is resolved, whether to one of a class or of an interface. -/
theorem ends_found {symbolic : Constant} {classIndex natIndex : UInt16}
    (held : (machine.cls owner).pool.slot index = symbolic)
    (refers : symbolic.Refers .method classIndex natIndex) :
    Ends (do
      let member ← ofLoad (((← get).cls owner).pool.member index)
      let holder ← resolveClass owner member.classIndex
      let registry := (← get).registry
      match registry.lookupMethod holder member.name member.descriptor with
      | some found => do
        let method := registry.method found
        let resolved : ResolvedMethod :=
          { method := found, argSlots := method.frameArgSlots, isStatic := method.isStatic }
        remember owner index (.resolvedMethod resolved)
        pure resolved
      | none =>
        raise .noSuchMethodError
          (some s!"'{member.descriptor} {registry.displayName holder}.{member.name}'")) machine
      (fun method _ => Resolves machine owner .method index (.resolvedMethod method))
      fun _ _ => True := by
  refine ends_holder fun target member natIndex holder after same read brings => ?_
  have method : target = .method := by
    rw [held] at same
    cases refers <;> cases same <;> rfl
  subst method
  rw [ends_bind, ends_get]
  dsimp only
  split
  next found looked =>
      simp only [ends_bind, remember, ends_modify, ends_pure]
      refine .member same read brings ?_
      rw [ClassTable.member?, looked]
      rfl
  next => exact (@moves_raise .all _ _ _ after _).ends

theorem ends_resolveMethod (owner : ClassId) (index : UInt16) (machine : Machine) :
    Ends (resolveMethod owner index) machine
      (fun method _ => Resolves machine owner .method index (.resolvedMethod method))
      fun _ _ => True := by
  rw [resolveMethod, ends_bind]
  refine (ends_constantAt owner index machine).mono ?_ fun _ _ _ => trivial
  rintro constant machine ⟨rfl, held⟩
  split
  next => exact ends_pure.mpr (.held held (.method _))
  next => exact ends_found held (.method _ _)
  next => exact ends_found held (.interfaceMethod _ _)
  next => exact ends_throw.mpr trivial

theorem ends_resolveString (owner : ClassId) (index : UInt16) (machine : Machine) :
    Ends (resolveString owner index) machine
      (fun ref _ => Resolves machine owner .string index (.resolvedString ref))
      fun _ _ => True := by
  rw [resolveString, ends_bind]
  refine (ends_constantAt owner index machine).mono ?_ fun _ _ _ => trivial
  rintro constant machine ⟨rfl, held⟩
  split
  next => exact ends_pure.mpr (.held held (.string _))
  next =>
      rw [ends_bind, ends_get, ends_bind]
      refine (@moves_ofLoad .all _ _ machine).ends.mono ?_ fun _ _ _ => trivial
      rintro text machine ⟨read, rfl⟩
      rw [ends_bind]
      refine (ends_self _ _).mono (fun ref after ran => ?_) fun _ _ _ => trivial
      simp only [ends_bind, remember, ends_modify, ends_pure]
      exact .string held read ⟨after, ran⟩
  next => exact ends_throw.mpr trivial

theorem resolves_of_returns {target : ResolutionTarget} {resolved : Constant}
    (returns : Returns (resolve target owner index) machine resolved) :
    Resolves machine owner target index resolved := by
  obtain ⟨after, ran⟩ := returns
  have ends : Ends (resolve target owner index) machine
      (fun resolved _ => Resolves machine owner target index resolved) fun _ _ => True := by
    cases target with
    | cls =>
        rw [resolve, ends_bind]
        refine (ends_self _ _).mono (fun id after ran => ?_) fun _ _ _ => trivial
        exact ends_pure.mpr (.cls (resolveClass_eq_ok_iff.mp ran))
    | field =>
        rw [resolve, ends_bind]
        exact (ends_resolveField owner index machine).mono
          (fun _ _ resolves => ends_pure.mpr resolves) fun _ _ _ => trivial
    | method =>
        rw [resolve, ends_bind]
        exact (ends_resolveMethod owner index machine).mono
          (fun _ _ resolves => ends_pure.mpr resolves) fun _ _ _ => trivial
    | string =>
        rw [resolve, ends_bind]
        exact (ends_resolveString owner index machine).mono
          (fun _ _ resolves => ends_pure.mpr resolves) fun _ _ _ => trivial
  have resolves := ends_of_ok ran ends
  exact resolves

/-- The resolution of a constant returns just what it has to return. -/
theorem returns_resolve_iff {target : ResolutionTarget} {resolved : Constant} :
    Returns (resolve target owner index) machine resolved ↔
      Resolves machine owner target index resolved :=
  ⟨resolves_of_returns, returns_of_resolves⟩

end

end Guest

end Jvm
