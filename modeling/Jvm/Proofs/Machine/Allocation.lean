import Jvm.Proofs.Machine.Closed

/-!
# Allocation is calm

Registers and stack of the running execution are roots that an allocation may
collect from. It changes the heap only, and an exception that is raised the heap and
the linked classes only.

Objects are made of linked classes, whatever is collected or thrown on the way.
Strings, exceptions, class objects and copies are built of such allocations and
of changes to the objects made.
-/

namespace Jvm.Guest

/-! ## What is not in the heap -/

section

variable {α γ : Type} {part : Machine → γ}

theorem spares_fatal (error : Error) : Spares part (fatal error : Guest α) :=
  Spares.throw _

theorem spares_ofLoad (loaded : Except LoadError α) : Spares part (ofLoad loaded) := by
  cases loaded with
  | ok value => exact Spares.pure value
  | error error => exact spares_fatal _

theorem spares_throwOutOfMemory : Spares part (throwOutOfMemory : Guest α) := by
  apply Spares.bind Spares.get
  intro machine
  cases machine.outOfMemory with
  | none => exact spares_fatal _
  | some ref => exact Spares.throw _

section

variable (blind : ∀ (machine : Machine) (heap : Heap), part { machine with heap } = part machine)

include blind

theorem spares_collect : Spares part collect := Spares.modifyGet fun _ => blind _ _

theorem spares_collectIfDue (size : Nat) : Spares part (collectIfDue size) := by
  apply Spares.bind Spares.get
  intro machine
  split
  · exact (spares_collect blind).bind fun _ => Spares.pure _
  · exact Spares.pure _

theorem spares_alloc (payload : Nat) (make : Int32 → Object) :
    Spares part (alloc payload make) := by
  rw [alloc]
  cases Heap.objectSize? payload with
  | none => exact spares_throwOutOfMemory
  | some size =>
      apply (spares_collectIfDue blind size).bind
      intro _
      apply Spares.bind Spares.get
      intro machine
      split
      · apply (spares_collect blind).bind
        intro _
        apply Spares.bind Spares.get
        intro machine
        split
        · exact spares_throwOutOfMemory.bind fun _ => Spares.modifyGet fun _ => blind _ _
        · exact Spares.modifyGet fun _ => blind _ _
      · exact Spares.modifyGet fun _ => blind _ _

theorem spares_newInstance (id : ClassId) : Spares part (newInstance id) :=
  Spares.get.bind fun _ => spares_alloc blind _ _

theorem spares_newArrayOf (id : ClassId) (data : ArrayData) : Spares part (newArrayOf id data) :=
  spares_alloc blind _ _

theorem spares_newCompactString (bytes : List Int8) (coder : Int8) :
    Spares part (newCompactString bytes coder) := by
  apply Spares.bind Spares.get
  intro machine
  apply (spares_newArrayOf blind _ _).bind
  intro value
  apply (spares_newInstance blind _).bind
  intro string
  apply Spares.bind
  · exact Spares.modify fun _ => blind _ _
  · exact fun _ => Spares.pure string

theorem spares_newString (text : String) : Spares part (newString text) :=
  spares_newCompactString blind _ _

end

theorem spares_loadRaw (name : String) : Spares Machine.exec (loadRaw name) :=
  fun _ => Ends.of_ok rfl rfl

theorem spares_newThrowable (className : String) (message : Option String) :
    Spares Machine.exec (newThrowable className message) := by
  have blind : ∀ (machine : Machine) (heap : Heap), { machine with heap }.exec = machine.exec :=
    fun _ _ => rfl
  apply (spares_loadRaw className).bind
  intro loaded
  apply (spares_ofLoad loaded).bind
  intro id
  apply (spares_newInstance blind id).bind
  intro ref
  cases message with
  | none => exact Spares.pure ref
  | some message =>
      apply (spares_newString blind message).bind
      intro text
      apply Spares.bind
      · exact Spares.modify fun _ => rfl
      · exact fun _ => Spares.pure ref

/-- Raising an exception never returns. -/
theorem ends_raise (kind : ExceptionKind) (message : Option String) (machine : Machine) :
    Ends (raise kind message : Guest α) machine (fun _ _ => False)
      fun _ after => after.exec = machine.exec := by
  rw [raise, ends_bind]
  apply (spares_newThrowable kind.className message machine).mono
  · intro ref after same
    rw [ends_throw]
    exact same
  · exact fun _ _ same => same

end

/-! ## Failures -/

section

open Machine

variable {α : Type} {machine : Machine} {returned : α → Machine → Prop} (closed : machine.Closed)

include closed

theorem calm_fatal (error : Error) : Moves Calm (fatal error : Guest α) machine returned :=
  Moves.throw closed.calm_refl

theorem calm_fault (fault : StateFault) :
    Moves Calm (Guest.fault fault : Guest α) machine returned :=
  calm_fatal closed _

theorem calm_require {value : Option α} (missing : StateFault)
    (holds : ∀ found, value = some found → returned found machine) :
    Moves Calm (require value missing) machine returned := by
  cases value with
  | none => exact calm_fault closed missing
  | some found => exact Moves.pure closed.calm_refl (holds found rfl)

theorem calm_ofLoad {loaded : Except LoadError α}
    (holds : ∀ value, loaded = .ok value → returned value machine) :
    Moves Calm (ofLoad loaded) machine returned := by
  cases loaded with
  | ok value => exact Moves.pure closed.calm_refl (holds value rfl)
  | error error => exact calm_fatal closed _

/-! ## Objects -/

theorem calm_throwOutOfMemory : Moves Calm (throwOutOfMemory : Guest α) machine returned := by
  refine Moves.get_bind ?_
  cases machine.outOfMemory with
  | none => exact calm_fatal closed _
  | some ref => exact Moves.throw closed.calm_refl

theorem calm_collect : Moves Calm collect machine fun _ _ => True :=
  Moves.modifyGet closed.calm_collectGarbage trivial

theorem calm_collectIfDue (size : Nat) :
    Moves Calm (collectIfDue size) machine fun _ _ => True := by
  refine Moves.get_bind ?_
  split
  · refine (calm_collect closed).bind ?_
    intro _ after calm _
    exact Moves.pure calm.closed.calm_refl trivial
  · exact Moves.pure closed.calm_refl trivial

/-- An object of a linked class is put into the arena. -/
theorem calm_insert {make : Int32 → Object} (known : ∀ hash, machine.registry.Has (make hash).cls) :
    Moves Calm (modifyGet fun machine =>
      let (hash, heap) := machine.heap.nextHash
      let (ref, heap) := heap.insert (make hash)
      (ref, { machine with heap }) : Guest Ref) machine fun _ _ => True := by
  obtain ⟨hash, drawn, next⟩ := machine.heap.nextHash_eq
  have classes : Heap.ClassesIn { machine.heap with drawn } machine.registry.toClassTable :=
    closed.heap
  refine Moves.modifyGet ?_ trivial
  simp only [next]
  exact closed.calm_heap (classes.insert (known hash))

theorem calm_alloc (payload : Nat) {make : Int32 → Object}
    (known : ∀ hash, machine.registry.Has (make hash).cls) :
    Moves Calm (alloc payload make) machine fun _ _ => True := by
  rw [alloc]
  cases Heap.objectSize? payload with
  | none => exact calm_throwOutOfMemory closed
  | some size =>
      refine (calm_collectIfDue closed size).bind ?_
      intro _ middle calm _
      refine Moves.get_bind ?_
      split
      · refine (calm_collect calm.closed).bind ?_
        intro _ after collected _
        have grows := calm.grows.trans collected.grows
        refine Moves.get_bind ?_
        split
        · exact Moves.never_bind (calm_throwOutOfMemory collected.closed)
        · exact calm_insert collected.closed fun hash => grows.has (known hash)
      · exact calm_insert calm.closed fun hash => calm.grows.has (known hash)

theorem calm_newInstance {id : ClassId} (known : machine.registry.Has id) :
    Moves Calm (newInstance id) machine fun _ _ => True :=
  Moves.get_bind (calm_alloc closed _ fun _ => known)

theorem calm_newArrayOf {id : ClassId} (known : machine.registry.Has id) (data : ArrayData) :
    Moves Calm (newArrayOf id data) machine fun _ _ => True :=
  calm_alloc closed _ fun _ => known

theorem calm_newZeroArray {id : ClassId} (known : machine.registry.Has id) (size : Nat) :
    Moves Calm (newZeroArray id size) machine fun _ _ => True := by
  refine Moves.get_bind ?_
  cases array : (machine.cls id).array with
  | none =>
      simp only [array]
      exact calm_fault closed _
  | some info =>
      simp only [array]
      exact calm_alloc closed _ fun _ => known

/-! ## Strings -/

theorem calm_newCompactString (bytes : List Int8) (coder : Int8) :
    Moves Calm (newCompactString bytes coder) machine fun _ _ => True := by
  refine Moves.get_bind ?_
  refine (calm_newArrayOf closed closed.known.byteArray _).bind ?_
  intro value middle first _
  refine (calm_newInstance first.closed (first.grows.has closed.known.string)).bind ?_
  intro string after second _
  refine Moves.modify_bind (second.closed.calm_modifyHeap ?_) ?_
  · exact second.closed.heap.modifyFields _ _
  · refine Moves.pure ?_ trivial
    exact Closed.calm_refl ⟨second.closed.registry, second.closed.known,
      second.closed.heap.modifyFields _ _⟩

theorem calm_newString (text : String) : Moves Calm (newString text) machine fun _ _ => True :=
  calm_newCompactString closed _ _

theorem calm_newStringOfUnits (units : List UInt16) :
    Moves Calm (newStringOfUnits units) machine fun _ _ => True :=
  calm_newCompactString closed _ _

/-! ## Exceptions -/

theorem calm_linking {steps : Registry → Except LoadError ClassId × Registry}
    (links : machine.registry.LinksClass (steps machine.registry)) :
    Moves Calm (linking steps) machine
      fun loaded after => ∀ id, loaded = .ok id → after.registry.Has id :=
  Moves.of_ok rfl (closed.calm_registry links.closed links.grows links.rests) links.has

theorem calm_loadRaw (name : String) :
    Moves Calm (loadRaw name) machine
      fun loaded after => ∀ id, loaded = .ok id → after.registry.Has id :=
  calm_linking closed (Registry.links_load closed.registry name)

theorem calm_newThrowable (className : String) (message : Option String) :
    Moves Calm (newThrowable className message) machine fun _ _ => True := by
  refine (calm_loadRaw closed className).bind ?_
  intro loaded first loads has
  have checks : Moves Calm (ofLoad loaded) first fun id after => after.registry.Has id :=
    calm_ofLoad loads.closed has
  refine checks.bind ?_
  intro id second names known
  refine (calm_newInstance names.closed known).bind ?_
  intro ref third made _
  cases message with
  | none => exact Moves.pure made.closed.calm_refl trivial
  | some message =>
      refine (calm_newString made.closed message).bind ?_
      intro text after written _
      have calm : after.Calm (after.modifyHeap fun heap => heap.modifyFields ref fun fields =>
          fields.setRef after.known.throwableMessage (some text)) :=
        written.closed.calm_modifyHeap (written.closed.heap.modifyFields _ _)
      exact Moves.modify_bind calm (Moves.pure calm.closed.calm_refl trivial)

/-- Raising an exception never returns. -/
theorem calm_raise (kind : ExceptionKind) (message : Option String) :
    Moves Calm (raise kind message : Guest α) machine returned := by
  refine (calm_newThrowable closed _ message).bind ?_
  intro ref after calm _
  exact Moves.throw calm.closed.calm_refl

theorem calm_raiseNull (message : String) :
    Moves Calm (raiseNull message : Guest α) machine returned :=
  calm_raise closed _ _

theorem calm_classOf (ref : Ref) :
    Moves Calm (classOf ref) machine fun id after => after.registry.Has id :=
  Moves.get_bind (calm_require closed _ fun _ live => closed.has_of_class? live)

theorem calm_newArray {id : ClassId} (known : machine.registry.Has id) (size : Int32) :
    Moves Calm (newArray id size) machine fun _ _ => True := by
  rw [newArray]
  split
  · exact calm_raise closed _ _
  · exact calm_newZeroArray closed known _

/-! ## Canonical objects -/

theorem calm_internString (text : String) :
    Moves Calm (internString text) machine fun _ _ => True := by
  refine Moves.get_bind ?_
  cases machine.interned[text]? with
  | some ref => exact Moves.pure closed.calm_refl trivial
  | none =>
      refine (calm_newString closed text).bind ?_
      intro ref after calm _
      have interned := calm.closed.calm_intern text ref
      exact Moves.modify_bind interned (Moves.pure interned.closed.calm_refl trivial)

theorem calm_internObject? (ref : Ref) :
    Moves Calm (internObject? ref) machine fun _ _ => True := by
  refine Moves.get_bind ?_
  cases machine.stringText? ref with
  | none => exact Moves.pure closed.calm_refl trivial
  | some text =>
      cases found : machine.interned[text]? with
      | some canonical =>
          simp only [found]
          exact Moves.pure closed.calm_refl trivial
      | none =>
          simp only [found]
          have interned := closed.calm_intern text ref
          exact Moves.modify_bind interned (Moves.pure interned.closed.calm_refl trivial)

theorem calm_mirror (id : ClassId) : Moves Calm (mirror id) machine fun _ _ => True := by
  refine Moves.get_bind ?_
  cases (machine.cls id).mirror with
  | some ref => exact Moves.pure closed.calm_refl trivial
  | none =>
      refine (calm_newInstance closed closed.known.cls).bind ?_
      intro ref after made _
      have filled := made.closed.calm_heap
        ((made.closed.heap.modifyFields ref fun fields =>
          fields.set machine.known.classNumber (UInt32.ofNat id.index)).setSticky ref)
      have bound := filled.closed.calm_mirror id ref
      exact Moves.modify_bind (filled.trans bound) (Moves.pure bound.closed.calm_refl trivial)

theorem calm_cloneObject (ref : Ref) :
    Moves Calm (cloneObject ref) machine fun _ _ => True := by
  refine Moves.get_bind ?_
  cases live : machine.heap.get? ref with
  | none => exact calm_fault closed _
  | some object =>
      have known : machine.registry.Has object.cls := closed.heap _ _ live
      simp only
      split
      · exact calm_alloc closed _ fun _ => known
      · split
        · exact calm_alloc closed _ fun _ => known
        · exact calm_raise closed _ _

end

end Jvm.Guest
