import Jvm.Machine.Access
import Jvm.Proofs.Machine.Pending

/-!
# Static fields exist when they are used

An instruction that reads or writes a static field starts the initialization of the
class first, and that creates the static fields. So they are there when the instruction
goes on, and its check for them never fails.
-/

namespace Jvm.Guest

open Machine

variable {α β : Type}

/-- How an execution ends whose instruction finds no static fields in a class. -/
def noStatics : Throw := .fatal (.invalidState .classHasNoStatics)

/-- Whether a step never ends for want of static fields, wherever it begins. -/
def FindsStatics (step : Guest α) : Prop :=
  ∀ machine, Ends step machine (fun _ _ => True) fun raised _ => raised ≠ noStatics

namespace FindsStatics

protected theorem pure (value : α) : FindsStatics (pure value) := fun _ => ends_pure.mpr trivial

protected theorem get : FindsStatics get := fun _ => ends_get.mpr trivial

protected theorem modify (change : Machine → Machine) : FindsStatics (modify change) :=
  fun _ => ends_modify.mpr trivial

protected theorem modifyGet (change : Machine → α × Machine) : FindsStatics (modifyGet change) :=
  fun _ => ends_modifyGet.mpr trivial

protected theorem linking (steps : Registry → α × Registry) : FindsStatics (linking steps) :=
  fun _ => Ends.of_ok rfl trivial

protected theorem bind {step : Guest β} {next : β → Guest α} (first : FindsStatics step)
    (rest : ∀ value, FindsStatics (next value)) : FindsStatics (step >>= next) := by
  intro machine
  rw [ends_bind]
  exact (first machine).mono (fun value after _ => rest value after) fun _ _ other => other

protected theorem exception (ref : Ref) : FindsStatics (throw (.exception ref) : Guest α) :=
  fun _ => ends_throw.mpr nofun

protected theorem fatal {error : Error} (other : error ≠ .invalidState .classHasNoStatics) :
    FindsStatics (fatal error : Guest α) := by
  intro machine
  refine ends_throw.mpr fun same => other ?_
  cases same
  rfl

protected theorem ofLoad (loaded : Except LoadError α) : FindsStatics (ofLoad loaded) := by
  cases loaded with
  | ok value => exact .pure value
  | error error => exact .fatal nofun

protected theorem onThrow {step : Guest α} (finds : FindsStatics step)
    (change : Machine → Machine) : FindsStatics (onThrow step change) := by
  intro machine
  rw [ends_onThrow]
  exact (finds machine).mono (fun _ _ _ => trivial) fun _ _ other => other

end FindsStatics

/-! ## Steps that use no static fields -/

theorem finds_throwOutOfMemory : FindsStatics (throwOutOfMemory : Guest α) := by
  apply FindsStatics.get.bind
  intro machine
  cases machine.outOfMemory with
  | none => exact .fatal nofun
  | some ref => exact .exception ref

theorem finds_collect : FindsStatics collect := .modifyGet _

theorem finds_collectIfDue (size : Nat) : FindsStatics (collectIfDue size) := by
  apply FindsStatics.get.bind
  intro machine
  split
  · exact finds_collect.bind fun _ => .pure _
  · exact .pure _

theorem finds_alloc (payload : Nat) (make : Int32 → Object) :
    FindsStatics (alloc payload make) := by
  rw [alloc]
  cases Heap.objectSize? payload with
  | none => exact finds_throwOutOfMemory
  | some size =>
      refine (finds_collectIfDue size).bind fun _ => FindsStatics.get.bind fun machine => ?_
      split
      · refine finds_collect.bind fun _ => FindsStatics.get.bind fun machine => ?_
        split
        · exact finds_throwOutOfMemory.bind fun _ => .modifyGet _
        · exact .modifyGet _
      · exact .modifyGet _

theorem finds_newInstance (id : ClassId) : FindsStatics (newInstance id) :=
  FindsStatics.get.bind fun _ => finds_alloc _ _

theorem finds_newString (text : String) : FindsStatics (newString text) := by
  apply FindsStatics.get.bind
  intro machine
  refine (finds_alloc _ _).bind fun value => (finds_newInstance _).bind fun string => ?_
  exact (FindsStatics.modify _).bind fun _ => .pure string

theorem finds_raise (kind : ExceptionKind) (message : Option String) :
    FindsStatics (raise kind message : Guest α) := by
  have makes : FindsStatics (newThrowable kind.className message) := by
    refine (FindsStatics.linking _).bind fun loaded => (FindsStatics.ofLoad loaded).bind fun id => ?_
    apply (finds_newInstance id).bind
    intro ref
    cases message with
    | none => exact .pure ref
    | some message =>
        apply (finds_newString message).bind
        exact fun text => (FindsStatics.modify _).bind fun _ => .pure ref
  exact makes.bind fun ref => .exception ref

theorem finds_constantAt (id : ClassId) (index : UInt16) : FindsStatics (constantAt id index) :=
  FindsStatics.get.bind fun _ => .ofLoad _

theorem finds_resolveClass (id : ClassId) (index : UInt16) :
    FindsStatics (resolveClass id index) := by
  have links : FindsStatics (linkClass id index) := by
    apply FindsStatics.get.bind
    intro machine
    dsimp only
    split
    · exact .pure _
    · exact .pure _
    · split
      · exact .pure _
      · apply (FindsStatics.linking _).bind
        intro loaded
        cases loaded with
        | error error => exact .pure _
        | ok resolved => exact (FindsStatics.modify _).bind fun _ => .pure _
    · exact .pure _
  apply links.bind
  intro loaded
  rw [orMissingClass.eq_def]
  split
  · exact .pure _
  · exact finds_raise _ _
  · exact .fatal (by rintro ⟨⟩)

theorem finds_resolveField (id : ClassId) (index : UInt16) :
    FindsStatics (resolveField id index) := by
  apply (finds_constantAt id index).bind
  intro constant
  split
  · exact .pure _
  · refine FindsStatics.get.bind fun machine => (FindsStatics.ofLoad _).bind fun member => ?_
    refine (finds_resolveClass id _).bind fun owner => FindsStatics.get.bind fun machine => ?_
    dsimp only
    split
    · exact (FindsStatics.modify _).bind fun _ => .pure _
    · exact finds_raise _ _
  · exact .fatal nofun

theorem finds_resolveString (id : ClassId) (index : UInt16) :
    FindsStatics (resolveString id index) := by
  have interns : ∀ text, FindsStatics (internString text) := by
    intro text
    apply FindsStatics.get.bind
    intro machine
    split
    · exact .pure _
    · exact (finds_newString text).bind fun ref => (FindsStatics.modify _).bind fun _ => .pure ref
  apply (finds_constantAt id index).bind
  intro constant
  split
  · exact .pure _
  · refine FindsStatics.get.bind fun machine => (FindsStatics.ofLoad _).bind fun text => ?_
    exact (interns text).bind fun ref => (FindsStatics.modify _).bind fun _ => .pure ref
  · exact .fatal nofun

theorem finds_initialValue (id : ClassId) (kind : Kind) (index : UInt16) :
    FindsStatics (initialValue id kind index) := by
  apply FindsStatics.get.bind
  intro machine
  cases kind with
  | reference => exact (finds_resolveString id index).bind fun _ => .pure _
  | _ => exact (FindsStatics.ofLoad _).bind fun _ => .pure _

theorem finds_storeInitialValues (id : ClassId) (values : List (Field × UInt16)) :
    FindsStatics (storeInitialValues id values) := by
  induction values with
  | nil => exact .pure _
  | cons value values ih =>
      apply (finds_initialValue id value.1.kind value.2).bind
      exact fun value => (FindsStatics.modify _).bind fun _ => ih

theorem finds_pushInitializer (id : ClassId) (pc : UInt32) :
    FindsStatics (pushInitializer id pc) := by
  have pushes : ∀ method, FindsStatics (pushFrame method pc pc) := by
    intro method
    apply FindsStatics.get.bind
    intro machine
    dsimp only
    split
    · exact .fatal nofun
    · split
      · exact .fatal nofun
      · split
        · exact finds_raise _ _
        · exact .modify _
  apply FindsStatics.get.bind
  intro machine
  split
  · exact .pure _
  · exact ((pushes _).onThrow _).bind fun _ => .pure _

theorem finds_initializeChain (ids : List ClassId) (pc : UInt32) :
    FindsStatics (initializeChain ids pc) := by
  induction ids generalizing pc with
  | nil => exact .pure _
  | cons id above ih =>
      apply FindsStatics.get.bind
      intro machine
      split
      · exact .pure _
      · exact .pure _
      · exact FindsStatics.get.bind fun _ => finds_raise _ _
      · have prepares : FindsStatics (prepareStatics id) :=
          (FindsStatics.modify _).bind fun _ => FindsStatics.get.bind fun _ =>
            finds_storeInitialValues id _
        refine prepares.bind fun _ => (FindsStatics.modify _).bind fun _ => ?_
        refine (finds_pushInitializer id pc).bind fun pushed => ((ih _).onThrow _).bind ?_
        intro pushedAbove
        split
        · exact (FindsStatics.modify _).bind fun _ => .pure _
        · exact .pure _

theorem finds_ensureInitialized (id : ClassId) (pc : UInt32) :
    FindsStatics (ensureInitialized id pc) := by
  apply FindsStatics.get.bind
  intro machine
  split
  · exact .pure _
  · exact .pure _
  · exact finds_initializeChain _ pc

theorem finds_staticField? (id : ClassId) (index : UInt16) (pc : UInt32) :
    FindsStatics (staticField? id index pc) := by
  apply (finds_resolveField id index).bind
  intro field
  split
  · exact FindsStatics.get.bind fun _ => finds_raise _ _
  · apply (finds_ensureInitialized field.owner pc).bind
    intro pushed
    split <;> exact .pure _

/-! ## Static fields of a class that is used -/

theorem isSome_statics_of_prepared {cls : Class} (prepared : cls.Prepared) : cls.statics.isSome = true := by
  rw [← Option.isSome_map, show cls.statics.map Fields.size = _ from prepared]
  rfl

section

variable {machine : Machine} (closed : machine.Closed) (ordered : machine.registry.Ordered)
  {id : ClassId} (known : machine.registry.Has id) (index : UInt16)

include closed ordered known

/-- The static fields of a class exist once a field of it may be used. -/
theorem prepared_staticField? (pc : UInt32) :
    Ends (staticField? id index pc) machine
      (fun found after => ∀ field, found = some field → (after.cls field.owner).Prepared)
      fun _ _ => True := by
  rw [staticField?, ends_bind]
  refine Ends.mono (calm_resolveField_plain closed id index) ?_ fun _ _ _ => trivial
  rintro field resolved ⟨calm, has, plain⟩
  split
  next =>
      rw [ends_bind, ends_get]
      exact (ends_raise _ _ _).mono (fun _ _ never => never.elim) fun _ _ _ => trivial
  next =>
      rw [ends_bind]
      refine (raises_ensureInitialized calm.closed has pc).mono ?_ fun _ _ _ => trivial
      rintro pushed after ⟨raises, -, begun⟩
      have prepared : (after.cls field.owner).Prepared := by
        by_cases fresh : (resolved.cls field.owner).initState = .uninitialized
        · exact begun fresh
        · have order := calm.rests.ordered ordered
          exact raises.prepared has (order.table.prepared field.owner has (plain ordered known) fresh)
      split <;> refine ends_pure.mpr ?_ <;> rintro _ ⟨⟩
      exact prepared

/-- Reading a static field never ends for want of it. -/
theorem finds_getStatic (pc next : UInt32) :
    Ends (getStatic id index pc next) machine (fun _ _ => True) fun raised _ => raised ≠ noStatics := by
  rw [getStatic, ends_bind]
  refine (Ends.and (prepared_staticField? closed ordered known index pc)
    (finds_staticField? id index pc machine)).mono ?_ fun _ _ ended => ended.2
  rintro found after ⟨prepared, -⟩
  cases found with
  | none => exact ends_pure.mpr trivial
  | some field =>
      obtain ⟨statics, held⟩ := Option.isSome_iff_exists.mp
        (isSome_statics_of_prepared (prepared field rfl))
      dsimp only
      rw [ends_bind, ends_get, held]
      exact ((FindsStatics.pure statics).bind fun _ => (FindsStatics.modify _).bind fun _ =>
        (FindsStatics.modify _).bind fun _ => .pure _) after

/-- Writing a static field never ends for want of it. -/
theorem finds_setStatic (pc next : UInt32) :
    Ends (setStatic id index pc next) machine (fun _ _ => True) fun raised _ => raised ≠ noStatics := by
  rw [setStatic, ends_bind]
  refine (Ends.and (prepared_staticField? closed ordered known index pc)
    (finds_staticField? id index pc machine)).mono ?_ fun _ _ ended => ended.2
  rintro found after ⟨prepared, -⟩
  cases found with
  | none => exact ends_pure.mpr trivial
  | some field =>
      have held := isSome_statics_of_prepared (prepared field rfl)
      have some : ((after.cls field.owner).statics.isNone) = false := by
        rw [Option.isNone_eq_false_iff]
        exact held
      dsimp only
      rw [ends_bind]
      refine Ends.of_ok rfl ?_
      rw [ends_bind, ends_get]
      refine (ends_congr (congrFun (if_neg ?_) _)).mpr ?_
      · exact Bool.eq_false_iff.mp some
      · exact ((FindsStatics.modify _).bind fun _ => (FindsStatics.modify _).bind fun _ => .pure _) _

end

end Jvm.Guest
