import Jvm.Proofs.Typing.Steps

/-!
# Elements that are written

A store checks an element against the class of the components, and so does a copy between arrays
where not all arrays of the one class are arrays of the other. An array of arrays is filled with
rows of its components, an array of strings with strings, and a clone has the elements of an array
that was there. So all of these write elements that suit the array.
-/

namespace Jvm

set_option mvcgen.warning false

/-! ## Elements after a write -/

namespace ArrayData

variable {α : Type} {element : α}

theorem mem_of_mem_splice {items : List α} {target : Array α} {start : Nat}
    (member : element ∈ splice target start items) : element ∈ target ∨ element ∈ items := by
  induction items generalizing target start with
  | nil => exact .inl member
  | cons item rest ih =>
      rcases ih member with stored | later
      · rcases Array.mem_or_eq_of_mem_setIfInBounds stored with old | rfl
        · exact .inl old
        · exact .inr (.head rest)
      · exact .inr (.tail item later)

/-- What stands in the target of a copy stood in the target or in the source. -/
theorem mem_of_mem_transfer {target source : Array α} {place start count : Nat}
    (member : element ∈ transfer target place source start count) :
    element ∈ target ∨ element ∈ source := by
  refine (mem_of_mem_splice member).imp_right fun copied => ?_
  rw [SystemNative.toList_extract] at copied
  exact Array.mem_toList_iff.mp (List.mem_of_mem_drop (List.mem_of_mem_take copied))

variable {data other : ArrayData} {ref : Ref} {index start place count : Nat} {value : Value}

theorem Contains.of_set (contains : (data.set index value).Contains ref) :
    data.Contains ref ∨ (data.kind = .reference ∧ value = .ref (some ref)) := by
  obtain ⟨elements, same, member⟩ := contains
  rw [set.eq_def] at same
  split at same
  case h_8 old element =>
      cases same
      rcases Array.mem_or_eq_of_mem_setIfInBounds member with before | rfl
      · exact .inl ⟨old, rfl, before⟩
      · exact .inr ⟨rfl, rfl⟩
  case h_9 => exact .inl ⟨elements, same, member⟩
  all_goals cases same

theorem Contains.of_copyWithin (contains : (data.copyWithin start place count).Contains ref) :
    data.Contains ref := by
  obtain ⟨elements, same, member⟩ := contains
  rw [copyWithin.eq_def] at same
  split at same
  case h_8 old =>
      cases same
      exact ⟨old, rfl, (mem_of_mem_transfer member).elim id id⟩
  all_goals cases same

theorem Contains.of_copyFrom?
    (contains : ((data.copyFrom? place other start count).getD data).Contains ref) :
    data.Contains ref ∨ (data.kind = .reference ∧ other.Contains ref) := by
  obtain ⟨elements, same, member⟩ := contains
  rw [copyFrom?.eq_def] at same
  split at same
  case h_8 target source =>
      cases same
      rcases mem_of_mem_transfer member with before | copied
      · exact .inl ⟨target, rfl, before⟩
      · exact .inr ⟨rfl, source, rfl, copied⟩
  case h_9 => exact .inl ⟨elements, same, member⟩
  all_goals cases same

end ArrayData

namespace Machine

/-- Whether the objects of a machine are in shape and the elements of its arrays suit them. -/
structure WellTyped (machine : Machine) : Prop where
  shapely : machine.Shapely
  typed : machine.Typed

variable {machine after : Machine}

/-! ### What may be stored -/

namespace WellTyped

variable (well : machine.WellTyped) {array : Ref} {cls : ClassId} {data : ArrayData}
  (live : machine.heap.class? array = some cls)

include well live

theorem known : machine.registry.Has cls := by
  obtain ⟨object, there, rfl⟩ := Option.map_eq_some_iff.mp live
  exact (well.shapely.forms there).known

theorem element_eq (held : machine.heap.array? array = some data)
    (references : data.kind = .reference) :
    SystemNative.elementKind machine cls = some .reference := by
  obtain ⟨kind, element, stored⟩ := SystemNative.HasArray.exists_kind ⟨live, held⟩ well.shapely
  rw [references] at stored
  cases kind <;> cases stored
  exact element

theorem exists_component? (held : machine.heap.array? array = some data)
    (references : data.kind = .reference) :
    ∃ component, machine.registry.component? cls = some component := by
  have element := well.element_eq live held references
  obtain ⟨info, isArray, same⟩ := Option.map_eq_some_iff.mp element
  exact well.typed.ranked.exists_component? isArray same

end WellTyped

/-- A step of a machine whose arrays suit their elements ends with such a machine. -/
abbrev Obeys {ε α : Type} (step : EStateM ε Machine α) (machine : Machine) : Prop :=
  Ends step machine (fun _ after => after.WellTyped) fun _ after => after.WellTyped

section

variable {ε α : Type} {step : EStateM ε Machine α}

theorem WellTyped.obeys (well : machine.WellTyped) (paces : Paces step)
    (ends : Ends step machine (fun _ after => after.Typed) fun _ after => after.Typed) :
    Obeys step machine :=
  (Ends.and (paces machine) ends).mono
    (fun _ _ both => ⟨both.1.1.shapely well.shapely, both.2⟩)
    fun _ _ both => ⟨both.1.shapely well.shapely, both.2⟩

theorem WellTyped.ends (well : machine.WellTyped) (paces : Paces step) (keeps : KeepsTyped step) :
    Obeys step machine :=
  well.obeys paces (keeps.ends well.typed)

end

/-- What a check lets into an array suits it. -/
theorem WellTyped.suits (well : machine.WellTyped) {cls component held : ClassId} {ref : Ref}
    (found : machine.registry.component? cls = some component)
    (live : machine.heap.class? ref = some held)
    (assignable : machine.registry.isAssignable held component = true) :
    machine.heap.Suits machine.registry.toClassTable cls ref :=
  have known := well.known live
  have known' := well.typed.ranked.has_component? found
  ⟨held, component, live, known, found,
    (well.typed.ranked.isAssignable_iff known known').mp assignable⟩

/-- An element is written that suits the array. -/
theorem Typed.setElement (typed : machine.Typed) {array : Ref} {value : Value} (index : Nat)
    (suits : ∀ cls data ref, machine.heap.class? array = some cls →
      machine.heap.array? array = some data → data.kind = .reference → value = .ref (some ref) →
        machine.heap.Suits machine.registry.toClassTable cls ref) :
    (machine.modifyHeap fun heap => heap.modifyArray array fun data =>
      data.set index value).Typed := by
  refine typed.modifyArray array (fun data => data.byteSize_set index value)
    (fun data => data.kind_set index value) fun cls data ref live held contains => ?_
  rcases contains.of_set with before | ⟨references, same⟩
  · exact typed.suited array cls data ref live held before
  · exact suits cls data ref live held references same

theorem WellTyped.setElement (well : machine.WellTyped) {array : Ref} {value : Value} (index : Nat)
    (suits : ∀ cls data ref, machine.heap.class? array = some cls →
      machine.heap.array? array = some data → data.kind = .reference → value = .ref (some ref) →
        machine.heap.Suits machine.registry.toClassTable cls ref) :
    (machine.modifyHeap fun heap => heap.modifyArray array fun data =>
      data.set index value).WellTyped where
  shapely :=
    have shaped : Shaped .all machine (machine.modifyHeap fun heap =>
        heap.modifyArray array fun data => data.set index value) :=
      .write (.modifyArray _ array (fun data => data.byteSize_set index value)
        fun data => data.kind_set index value)
    shaped.shapely well.shapely
  typed := well.typed.setElement index suits

open Guest

namespace Typed

variable (typed : machine.Typed)

include typed

/-! ### Stores -/

theorem ends_raise {α : Type} {returned : α → Machine → Prop} (kind : ExceptionKind)
    (message : Option String) :
    Ends (raise kind message : Guest α) machine returned fun _ after => after.Typed := by
  obtain ⟨raised, after, ran, -⟩ := exists_raise (α := α) typed.toSpacious kind message
  exact .of_error ran (ends_of_error ran ((keeps_raise kind message).ends typed))

theorem ends_classOf (ref : Ref) :
    Ends (Guest.classOf ref) machine
      (fun cls after => after = machine ∧ machine.heap.class? ref = some cls)
      fun _ after => after.Typed := by
  rw [Guest.classOf, ends_bind, ends_get, require.eq_def]
  split
  next cls live => exact ends_pure.mpr ⟨rfl, live⟩
  next => exact ends_throw.mpr typed

/-- A check lets through what is null and what is of the class of the components. -/
theorem ends_checkElement (array : Class) (value : Value) :
    Ends (checkElement array value) machine (fun _ after => after = machine ∧
      ∀ ref component, value = .ref (some ref) → array.array.bind (·.component) = some component →
        ∃ held, machine.heap.class? ref = some held ∧
          machine.registry.isAssignable held component = true) fun _ after => after.Typed := by
  rw [checkElement.eq_def]
  split
  next ref =>
      rw [ends_bind]
      refine (typed.ends_classOf ref).mono (fun held _ found => ?_) fun _ _ typed => typed
      obtain ⟨rfl, live⟩ := found
      rw [ends_bind, ends_get]
      split
      next none =>
          refine ends_pure.mpr ⟨rfl, fun _ component _ found => ?_⟩
          cases none.symm.trans found
      next component found =>
          split
          · exact typed.ends_raise _ _
          next assignable =>
              refine ends_pure.mpr ⟨rfl, ?_⟩
              rintro _ _ ⟨⟩ same
              cases found.symm.trans same
              exact ⟨held, live, by simpa using assignable⟩
  next differs =>
      refine ends_pure.mpr ⟨rfl, fun ref component same _ => ?_⟩
      exact (differs ref same).elim

end Typed

/-- An element is stored that is checked against the class of the array. -/
theorem WellTyped.ends_storeElement (well : machine.WellTyped) (kind : Kind) :
    Ends (storeElement kind) machine (fun _ after => after.Typed) fun _ after => after.Typed := by
  rw [storeElement, ends_bind]
  refine (well.ends (paces_fromStack _) (keeps_fromStack _)).mono (fun value popped well => ?_)
    fun _ _ well => well.typed
  rw [ends_bind]
  refine (well.ends (paces_arrayOperands _) (keeps_arrayOperands _)).mono
    (fun (array, index) ready well => ?_) fun _ _ well => well.typed
  rw [ends_bind, ends_get, ends_bind]
  refine (well.typed.ends_classOf array).mono (fun cls _ found => ?_) fun _ _ typed => typed
  obtain ⟨rfl, live⟩ := found
  rw [ends_bind]
  refine (well.typed.ends_checkElement _ value).mono (fun _ _ checked => ?_)
    fun _ _ typed => typed
  obtain ⟨rfl, fits⟩ := checked
  rw [ends_bind, ends_get]
  dsimp only
  split
  · refine ends_modify.mpr (well.typed.setElement index ?_)
    intro other data ref there held references same
    cases live.symm.trans there
    obtain ⟨component, found⟩ := well.exists_component? live held references
    have same : value = .ref (some ref) := by
      cases value <;> first | exact same | cases same
    obtain ⟨held, alive, assignable⟩ := fits ref component same found
    exact well.suits found alive assignable
  · exact (keeps_fault _).ends well.typed

/-! ### Arrays of arrays -/

variable {before between : Machine}

/-- Whether a machine comes from another one that has the same classes and keeps what was kept for
now. -/
structure Carries (before after : Machine) : Prop where
  registry : after.registry = before.registry
  known : after.known = before.known
  kept : ∀ ref cls, ref ∈ before.heap.pending → before.heap.class? ref = some cls →
    ref ∈ after.heap.pending ∧ after.heap.class? ref = some cls

namespace Carries

theorem refl : machine.Carries machine := ⟨rfl, rfl, fun _ _ held live => ⟨held, live⟩⟩

theorem trans (left : before.Carries between) (right : between.Carries after) :
    before.Carries after where
  registry := right.registry.trans left.registry
  known := right.known.trans left.known
  kept ref cls held live := by
    obtain ⟨held, live⟩ := left.kept ref cls held live
    exact right.kept ref cls held live

theorem of_preserves (preserves : before.Preserves after)
    (registry : after.registry = before.registry) : before.Carries after where
  registry := registry
  known := by rw [preserves.aside]
  kept ref cls held live := by
    obtain ⟨object, there, rfl⟩ := Option.map_eq_some_iff.mp live
    have kept := preserves.objects (.root (.pending held)) there
    exact ⟨preserves.pending ref held, congrArg (Option.map _) kept⟩

theorem modifyArray (machine : Machine) (array : Ref) (change : ArrayData → ArrayData) :
    machine.Carries (machine.modifyHeap fun heap => heap.modifyArray array change) where
  registry := rfl
  known := rfl
  kept ref _ held live :=
    ⟨held, (machine.heap.class?_modify array ref Object.cls_modifyArray).trans live⟩

end Carries

/-- Whether a machine has come from another one with an object of a class, which is kept for
now. -/
structure Brings (before : Machine) (cls : ClassId) (ref : Ref) (after : Machine) : Prop where
  typed : after.Typed
  carries : before.Carries after
  pending : ref ∈ after.heap.pending
  live : after.heap.class? ref = some cls

/-- What is brought is still there later. -/
theorem Brings.later {cls : ClassId} {ref : Ref} (brings : before.Brings cls ref between)
    (typed : after.Typed) (carries : between.Carries after) : before.Brings cls ref after := by
  obtain ⟨held, live⟩ := carries.kept ref cls brings.pending brings.live
  exact ⟨typed, brings.carries.trans carries, held, live⟩

/-- An array is filled with objects of the class of its components. -/
theorem Brings.setElement {cls component : ClassId} {array ref : Ref}
    (brings : before.Brings cls array between) (made : between.Brings component ref after)
    (found : between.registry.component? cls = some component) (index : Nat) :
    before.Brings cls array (after.modifyHeap fun heap => heap.modifyArray array fun data =>
      data.set index (.ref (some ref))) := by
  obtain ⟨typed, carries, pending, live⟩ := brings.later made.typed made.carries
  refine (⟨typed, carries, pending, live⟩ : before.Brings cls array after).later ?_
    (.modifyArray after array _)
  refine typed.setElement index fun other data _ there held references same => ?_
  cases live.symm.trans there
  cases same
  rw [← made.carries.registry] at found
  exact ⟨component, component, made.live, typed.ranked.has_component? found, found, .up .refl⟩

namespace Typed

variable (typed : machine.Typed)

include typed

theorem ends_newZeroArray (id : ClassId) (size : Nat) :
    Ends (newZeroArray id size) machine (machine.Brings id) fun _ after => after.Typed := by
  have gains : Ends (newZeroArray id size) machine (fun ref after => machine.Carries after ∧
      ref ∈ after.heap.pending ∧ after.heap.class? ref = some id) fun _ _ => True := by
    rw [newZeroArray, ends_bind, ends_get]
    dsimp only
    split
    · exact ends_throw.mpr trivial
    next info _ =>
        have sized (hash : Int32) :
            Object.payload { cls := id, hash, body := .array (.ofSize info.element size) } =
              size * info.element.size :=
          ArrayData.byteSize_ofSize _ _
        refine (ends_alloc_of_spacious sized (fun _ => rfl) typed.toSpacious).mono (fun ref after gains => ?_)
          fun _ _ _ => trivial
        obtain ⟨hash, live⟩ := gains.live
        exact ⟨.of_preserves gains.preserves gains.registry, gains.pending,
          congrArg (Option.map _) live⟩
  exact (gains.and ((keeps_newZeroArray id size).ends typed)).mono
    (fun _ _ both => ⟨both.2, both.1.1, both.1.2.1, both.1.2.2⟩) fun _ _ both => both.2

theorem ends_newArray (id : ClassId) (size : Int32) :
    Ends (newArray id size) machine (machine.Brings id) fun _ after => after.Typed := by
  rw [newArray]
  split
  · exact typed.ends_raise _ _
  · exact typed.ends_newZeroArray id _

/-- The rows of an array of arrays are arrays of its components. -/
theorem ends_newNestedArray (id : ClassId) (counts : List Int32) :
    Ends (newNestedArray id counts) machine (machine.Brings id) fun _ after => after.Typed := by
  induction id, counts using newNestedArray.induct generalizing machine with
  | case1 id => exact ends_throw.mpr typed
  | case2 id count => exact typed.ends_newArray id count
  | case3 id count inner nested ih =>
      rw [newNestedArray]
      · rw [ends_bind]
        refine (typed.ends_newArray id count).mono (fun array made brings => ?_)
          fun _ _ typed => typed
        rw [ends_bind, ends_get, ends_bind, require.eq_def]
        split
        next component found =>
            rw [ends_pure, ends_bind]
            have fills (indices : List Nat) {start : Machine} (brought : machine.Brings id array start)
                (carries : made.Carries start) :
                Ends (indices.forM fun index => do
                    let row ← newNestedArray component inner
                    modify fun machine => machine.modifyHeap fun heap =>
                      heap.modifyArray array fun data => data.set index (.ref (some row)))
                  start (fun _ => machine.Brings id array) fun _ after => after.Typed := by
              induction indices generalizing start with
              | nil => exact ends_pure.mpr brought
              | cons index rest next =>
                  rw [List.forM, ends_bind, ends_bind]
                  refine (ih component brought.typed).mono (fun row after filled => ?_)
                    fun _ _ typed => typed
                  refine ends_modify.mpr (next ?_ ?_)
                  · exact brought.setElement filled (carries.registry ▸ found) index
                  · exact (carries.trans filled.carries).trans (.modifyArray after array _)
            exact (fills _ brings .refl).mono (fun _ _ => ends_pure.mpr) fun _ _ typed => typed
        next => exact ends_throw.mpr brings.typed
      · exact nested

end Typed

end Machine

open Machine

namespace Guest

set_option mvcgen.warning false in
@[spec] theorem keeps_pushNestedArray (id : ClassId) (dimensions : Nat) :
    KeepsTyped (pushNestedArray id dimensions) := by
  have nests (counts : List Int32) : KeepsTyped (newNestedArray id counts) :=
    keeps_iff.mpr fun machine typed =>
      (typed.ends_newNestedArray id counts).mono (fun _ _ brings => brings.typed)
        fun _ _ typed => typed
  mvcgen [pushNestedArray, nests]

end Guest

namespace Machine

open Guest

/-! ### Clones -/

/-- A clone has the elements of an array that is still there when they are written: the array has
to be reached, since garbage may be collected first. -/
theorem Typed.ends_cloneObject {machine : Machine} (typed : machine.Typed) {ref : Ref}
    (kept : ∀ data other, machine.heap.array? ref = some data → data.Contains other →
      machine.Reachable ref) :
    Ends (cloneObject ref) machine (fun _ after => after.Typed) fun _ after => after.Typed := by
  have room := typed.toSpacious
  rw [cloneObject, ends_bind, ends_get]
  cases live : machine.heap.get? ref with
  | none => exact ends_throw.mpr typed
  | some object =>
      have allocates : Ends (alloc object.payload fun hash =>
          { cls := object.cls, hash, body := object.body }) machine
          (fun _ after => after.Typed) fun _ after => after.Typed ∧ machine.Preserves after := by
        have sized (hash : Int32) :
            Object.payload { cls := object.cls, hash, body := object.body } = object.payload := rfl
        refine ends_alloc sized ⟨typed, .refl room⟩ ?_ ?_
        · rintro between ⟨typed, preserves⟩
          exact ⟨typed.collectGarbage, preserves.trans room (.collectGarbage typed.toSpacious)⟩
        · rintro between hash drawn ⟨typed, preserves⟩ fits
          refine typed.insert drawn fits rfl fun data other held contains => ?_
          have body : object.array? = some data := held
          have reached := kept data other
            (Heap.array?_eq_some_iff.mpr ⟨object, live, body⟩) contains
          have there := preserves.objects reached live
          exact typed.suited ref object.cls data other (congrArg (Option.map _) there)
            (Heap.array?_eq_some_iff.mpr ⟨object, there, body⟩) contains
      have copies := allocates.mono (fun _ _ typed => typed) fun _ _ both => both.1
      dsimp only
      split
      · exact copies
      · split
        · exact copies
        · exact (keeps_raise _ _).ends typed

end Machine

namespace SystemNative

open Guest Machine

variable {machine : Machine} {source target : Ref} {sourceClass targetClass : ClassId}

/-! ## Copies -/

/-- Each element that is copied has been checked. -/
theorem ends_copyChecked (well : machine.WellTyped) {component : ClassId}
    (live : machine.heap.class? target = some targetClass)
    (found : machine.registry.component? targetClass = some component) (index : Nat)
    (elements : List (Option Ref)) :
    Ends (copyChecked target component index elements) machine (fun _ after => after.Typed)
      fun _ after => after.Typed := by
  induction elements generalizing machine index with
  | nil => exact ends_pure.mpr well.typed
  | cons element rest ih =>
      have stores (fits : ∀ ref, element = some ref → ∃ cls, machine.heap.class? ref = some cls ∧
          machine.registry.isAssignable cls component = true) : Ends (do
            modify fun machine => machine.modifyHeap fun heap => heap.modifyArray target fun data =>
              data.set index (.ref element)
            copyChecked target component (index + 1) rest : Guest Unit) machine
          (fun _ after => after.Typed) fun _ after => after.Typed := by
        refine ends_bind.mpr (ends_modify.mpr (ih (well.setElement index ?_) ?_ found (index + 1)))
        · intro cls data ref there _ _ same
          cases live.symm.trans there
          cases same
          obtain ⟨held, alive, assignable⟩ := fits ref rfl
          exact well.suits found alive assignable
        · exact (machine.heap.class?_modify target target Object.cls_modifyArray).trans live
      cases element with
      | none => exact stores nofun
      | some ref =>
          rw [copyChecked, ends_bind]
          refine (well.typed.ends_classOf ref).mono (fun held _ checked => ?_)
            fun _ _ typed => typed
          obtain ⟨rfl, alive⟩ := checked
          rw [ends_bind, ends_get]
          dsimp only
          split
          · rw [ends_bind]
            exact well.typed.ends_raise _ _
          next assignable =>
            refine stores ?_
            rintro _ ⟨⟩
            exact ⟨held, alive, by simpa using assignable⟩

/-- What arrays of one class hold may go unchecked into arrays that they are assignable to. -/
theorem suits_of_unchecked (well : machine.WellTyped)
    (sourceLive : machine.heap.class? source = some sourceClass)
    (targetLive : machine.heap.class? target = some targetClass)
    (unchecked : checkedAgainst machine sourceClass targetClass = none)
    {data elements : ArrayData} {ref : Ref} (held : machine.heap.array? target = some data)
    (references : data.kind = .reference) (there : machine.heap.array? source = some elements)
    (contains : elements.Contains ref) :
    machine.heap.Suits machine.registry.toClassTable targetClass ref := by
  have ranked := well.typed.ranked
  obtain ⟨component, found⟩ := well.exists_component? targetLive held references
  have assignable : machine.registry.isAssignable sourceClass targetClass = true := by
    by_contra unrelated
    cases unchecked.symm.trans (checkedAgainst_eq_some_iff.mpr
      ⟨well.element_eq targetLive held references, Bool.eq_false_iff.mpr unrelated, found⟩)
  have below := (ranked.isAssignable_iff (well.known sourceLive) (well.known targetLive)).mp
    assignable
  obtain ⟨cls, part, live, known, sourcePart, under⟩ :=
    well.typed.suited source sourceClass elements ref sourceLive there contains
  refine ⟨cls, component, live, known, found, ?_⟩
  obtain ⟨info, isArray, inside⟩ := Option.bind_eq_some_iff.mp sourcePart
  obtain ⟨info', isArray', inside'⟩ := Option.bind_eq_some_iff.mp found
  refine ranked.below_trans known (ranked.has_component? sourcePart) under ?_
  exact (ranked.below_iff_of_components (well.known sourceLive) isArray inside isArray'
    inside').mp below

theorem ends_copyElements (well : machine.WellTyped)
    (sourceLive : machine.heap.class? source = some sourceClass)
    (targetLive : machine.heap.class? target = some targetClass) (start place count : Nat) :
    Ends (copyElements source target sourceClass targetClass start place count) machine
      (fun _ after => after.Typed) fun _ after => after.Typed := by
  have typed := well.typed
  rw [copyElements]
  split
  · refine ends_modify.mpr (typed.modifyArray target
      (fun data => data.byteSize_copyWithin start place count)
      (fun data => data.kind_copyWithin start place count) fun cls data ref live held contains => ?_)
    exact typed.suited target cls data ref live held contains.of_copyWithin
  · rw [ends_bind, ends_get]
    split
    next component checked =>
        have checks := checkedAgainst_eq_some_iff.mp checked
        exact ends_copyChecked well targetLive checks.component place _
    next unchecked =>
        refine ends_modify.mpr ?_
        cases there : machine.heap.array? source with
        | none =>
            simp only [modifyHeap, there]
            exact typed
        | some elements =>
            simp only [modifyHeap, there]
            refine typed.modifyArray target (fun data => data.byteSize_copyFrom? place _ start count)
              (fun data => data.kind_copyFrom? place _ start count)
              fun cls data ref live held contains => ?_
            cases targetLive.symm.trans live
            rcases contains.of_copyFrom? with before | ⟨references, copied⟩
            · exact typed.suited target targetClass data ref live held before
            · exact suits_of_unchecked well sourceLive targetLive unchecked held references there
                copied

@[spec] theorem keeps_refuse {α : Type} (message : String) :
    KeepsTyped (refuse message : Guest α) :=
  keeps_raise _ _

theorem keeps_sizeOf (side : Side) : KeepsTyped (sizeOf side) := by
  mvcgen [sizeOf]

theorem ends_checkRange (well : machine.WellTyped) (side : Side) (length : Int32) (size : Nat) :
    Ends (checkRange side length size) machine (fun _ after => after = machine)
      fun _ after => after.Typed := by
  rw [checkRange]
  split
  · exact well.typed.ends_raise _ _
  · exact ends_pure.mpr rfl

/-- A copy keeps arrays suited to their elements, whether these are checked or not. -/
theorem ends_copy (well : machine.WellTyped) (arguments : NativeArgs) :
    Ends (copy arguments) machine (fun _ after => after.Typed) fun _ after => after.Typed := by
  rw [copy, ends_bind]
  refine (well.ends (paces_nonNull _ _) (keeps_nonNull _ _)).mono (fun source first well => ?_)
    fun _ _ well => well.typed
  rw [ends_bind]
  refine (well.ends (paces_nonNull _ _) (keeps_nonNull _ _)).mono (fun target second well => ?_)
    fun _ _ well => well.typed
  rw [ends_bind]
  refine (well.ends (paces_sizeOf _) (keeps_sizeOf _)).mono (fun sourceSize third well => ?_)
    fun _ _ well => well.typed
  rw [ends_bind]
  refine (well.ends (paces_sizeOf _) (keeps_sizeOf _)).mono (fun targetSize last well => ?_)
    fun _ _ well => well.typed
  rw [ends_bind]
  refine (well.typed.ends_classOf _).mono (fun sourceClass _ found => ?_) fun _ _ typed => typed
  obtain ⟨rfl, sourceLive⟩ := found
  rw [ends_bind]
  refine (well.typed.ends_classOf _).mono (fun targetClass _ found => ?_) fun _ _ typed => typed
  obtain ⟨rfl, targetLive⟩ := found
  rw [ends_bind, ends_get]
  dsimp only
  split
  · rw [ends_bind]
    exact well.typed.ends_raise _ _
  · rw [copyBetween, ends_bind]
    refine (ends_checkRange well _ _ _).mono (fun _ after same => ?_) fun _ _ typed => typed
    subst same
    rw [ends_bind]
    refine (ends_checkRange well _ _ _).mono (fun _ after same => ?_) fun _ _ typed => typed
    subst same
    split
    · exact ends_copyElements well sourceLive targetLive _ _ _
    · exact ends_pure.mpr well.typed

end SystemNative

/-! ## Arrays that the host makes -/

open Guest Machine

namespace Machine.Typed

variable {machine : Machine} (typed : machine.Typed)

include typed

theorem ends_newInstance (id : ClassId) :
    Ends (newInstance id) machine (machine.Brings id) fun _ after => after.Typed := by
  refine ((ends_newInstance_of_spacious typed.toSpacious id).and
    ((keeps_newInstance id).ends typed)).mono (fun ref after both => ?_) fun _ _ both => both.2
  obtain ⟨gains, typed⟩ := both
  obtain ⟨hash, live⟩ := gains.live
  exact ⟨typed, .of_preserves gains.preserves gains.registry, gains.pending,
    congrArg (Option.map _) live⟩

/-- A string is an object of the class that the machine knows for strings. -/
theorem ends_newString (text : String) :
    Ends (newString text) machine (machine.Brings machine.known.string)
      fun _ after => after.Typed := by
  have brings : Ends (newString text) machine (fun ref after => machine.Carries after ∧
      ref ∈ after.heap.pending ∧ after.heap.class? ref = some machine.known.string)
      fun _ _ => True := by
    rw [newString]
    dsimp only [newCompactString]
    rw [ends_bind, ends_get, ends_bind]
    refine ((ends_newArrayOf_of_spacious typed.toSpacious _ _).and
      ((keeps_newBytes _ _).ends typed)).mono (fun value between first => ?_)
      fun _ _ _ => trivial
    obtain ⟨first, typed⟩ := first
    rw [ends_bind]
    refine (typed.ends_newInstance _).mono (fun string after second => ?_) fun _ _ _ => trivial
    have carries := (Carries.of_preserves first.preserves first.registry).trans second.carries
    refine ends_bind.mpr (ends_modify.mpr (ends_pure.mpr ⟨?_, second.pending, ?_⟩))
    · exact ⟨carries.registry, carries.known, fun ref cls held live => by
        obtain ⟨held, live⟩ := carries.kept ref cls held live
        exact ⟨held, (Heap.class?_modify _ _ _ fun object => object.cls_modifyFields).trans live⟩⟩
    · exact (Heap.class?_modify _ _ _ fun object => object.cls_modifyFields).trans second.live
  refine (brings.and ((keeps_newString text).ends typed)).mono (fun ref after both => ?_)
    fun _ _ both => both.2
  obtain ⟨⟨carries, pending, live⟩, typed⟩ := both
  exact ⟨typed, carries, pending, live⟩

/-- A class that is loaded has the name that it was loaded by. -/
theorem ends_load (name : String) :
    Ends (Host.load name) machine (fun id after => after.Typed ∧ after.known = machine.known ∧
      after.registry.find? name = some id) fun _ after => after.Typed := by
  have linked := typed.load name
  have found := (machine.registry.prefixes_load name).2
  rw [Ends, Host.load, Host.linking]
  generalize machine.registry.load name = loading at linked found ⊢
  obtain ⟨loaded, registry⟩ := loading
  cases loaded with
  | error error => exact linked
  | ok id => exact ⟨linked, rfl, found id rfl⟩

/-- Arrays of strings have the class for strings as their components. -/
theorem component?_of_strings {id : ClassId} {info : ArrayInfo}
    (found : machine.registry.find? "[Ljava/lang/String;" = some id)
    (isArray : (machine.cls id).array = some info) :
    machine.registry.component? id = some machine.known.string := by
  have ranked := typed.ranked
  obtain ⟨known, called⟩ := ranked.named _ id found
  have spelled : ArrayName.component (machine.cls id).name = .ok (.named "java/lang/String") := by
    rw [show (machine.cls id).name = _ from called]
    decide +kernel
  have part := (ranked.bears id info known isArray).part
  obtain ⟨dimensions, element, component⟩ := info
  cases part with
  | primitive found => cases spelled.symm.trans found
  | @component inner component found named =>
      cases spelled.symm.trans found
      have inside : machine.registry.component? id = some component :=
        Option.bind_eq_some_iff.mpr ⟨_, isArray, rfl⟩
      have ordinary : ArrayName.isArrayName (machine.registry.get component).name = false := by
        rw [named]
        decide +kernel
      have found' := ranked.found component (ranked.has_component? inside) ordinary
      rw [named, typed.string] at found'
      rw [inside, found']

end Machine.Typed

namespace Host

variable {machine : Machine}

/-- Strings are stored in an array of strings. -/
theorem ends_storeStrings {before : Machine} {cls : ClassId} {array : Ref}
    (brings : before.Brings cls array machine)
    (found : machine.registry.component? cls = some machine.known.string) (index : Nat)
    (texts : List String) :
    Ends (storeStrings array index texts) machine (fun _ after => after.Typed)
      fun _ after => after.Typed := by
  induction texts generalizing machine index with
  | nil => exact ends_pure.mpr brings.typed
  | cons text rest ih =>
      rw [storeStrings, ends_bind]
      refine (brings.typed.ends_newString text).mono (fun string made brought => ?_)
        fun _ _ typed => typed
      rw [ends_bind, ends_modify]
      refine ih (brings.setElement brought found index) ?_ _
      rw [← brought.carries.known, ← brought.carries.registry] at found
      exact found

theorem keeps_newStringArray (texts : List String) : KeepsTyped (newStringArray texts) := by
  refine keeps_iff.mpr fun machine typed => ?_
  rw [newStringArray, ends_bind]
  refine (typed.ends_load _).mono (fun id loaded both => ?_) fun _ _ typed => typed
  obtain ⟨typed, -, found⟩ := both
  have fills : Ends (do
      let array ← newZeroArray id texts.length
      storeStrings array 0 texts
      pure array) loaded (fun _ after => after.Typed) fun _ after => after.Typed := by
    rw [ends_bind]
    cases isArray : (loaded.cls id).array with
    | none =>
        rw [newZeroArray, ends_bind, ends_get]
        dsimp only
        rw [isArray]
        exact ends_throw.mpr typed
    | some info =>
        have component := typed.component?_of_strings found isArray
        refine (typed.ends_newZeroArray id texts.length).mono (fun array made brings => ?_)
          fun _ _ typed => typed
        rw [ends_bind]
        refine (ends_storeStrings brings ?_ 0 texts).mono (fun _ _ typed => ends_pure.mpr typed)
          fun _ _ typed => typed
        rw [brings.carries.registry, brings.carries.known]
        exact component
  exact ends_ofGuest fills

theorem keeps_newIntArray (values : Array Int32) : KeepsTyped (newIntArray values) := by
  refine (keeps_load "[I").bind fun id => keeps_ofGuest ?_
  refine (keeps_newZeroArray id values.size).bind fun array => ?_
  refine KeepsTyped.bind (.modify fun machine typed => ?_) fun _ => .pure _
  refine typed.modifyArray array (fun data => data.byteSize_copyFrom? 0 _ 0 _)
    (fun data => data.kind_copyFrom? 0 _ 0 _) fun cls data ref live held contains => ?_
  rcases contains.of_copyFrom? with before | ⟨-, elements, ⟨⟩, -⟩
  exact typed.suited array cls data ref live held before

end Host

end Jvm
