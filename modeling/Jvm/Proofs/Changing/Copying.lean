import Jvm.Proofs.Changing.Tracing
import Jvm.Proofs.Heap.Elements
import Jvm.Proofs.Heap.Retention

/-!
# Copies between arrays

A copy is refused before anything moves, or it replaces a range of the target by what was in the
range of the source. Elements are copied one by one only where each is checked; the first one that
the target cannot hold ends the copy, and those before it stay copied.
-/

namespace Jvm

namespace Guest

/-- Nothing follows an exception. -/
theorem raise_bind {α β : Type} (kind : ExceptionKind) (message : Option String)
    (next : α → Guest β) : raise kind message >>= next = raise kind message := by
  funext machine
  simp only [raise, bind, EStateM.bind]
  cases newThrowable kind.className message machine <;> rfl

end Guest

namespace SystemNative

open Guest Machine

/-! ## Ranges -/

/-- Whether a range that starts at a position lies in an array. -/
structure InRange (position length : Int32) (size : Nat) : Prop where
  notBefore : 0 ≤ position.toInt
  notNegative : 0 ≤ length.toInt
  within : position.toInt + length.toInt ≤ size

theorem rangeFault?_eq_none_iff {side : Side} {length : Int32} {size : Nat} :
    rangeFault? side length size = none ↔ InRange side.position length size := by
  have before : side.position < 0 ↔ side.position.toInt < 0 := Int32.lt_iff_toInt_lt
  have negative : length < 0 ↔ length.toInt < 0 := Int32.lt_iff_toInt_lt
  simp only [rangeFault?, before, negative]
  constructor
  · intro none
    split at none
    next => cases none
    next notBefore =>
      split at none
      next => cases none
      next notNegative =>
        split at none
        next => cases none
        next within => exact ⟨by omega, by omega, by omega⟩
  · intro range
    obtain ⟨notBefore, notNegative, within⟩ := range
    rw [if_neg (by omega), if_neg (by omega), if_neg (by omega)]

theorem InRange.start_add_count_le {position length : Int32} {size : Nat}
    (range : InRange position length size) :
    position.toNatClampNeg + length.toNatClampNeg ≤ size := by
  obtain ⟨notBefore, notNegative, within⟩ := range
  rw [Int32.toNatClampNeg, Int32.toNatClampNeg]
  omega

theorem checkRange_of_inRange {side : Side} {length : Int32} {size : Nat}
    (range : InRange side.position length size) : checkRange side length size = pure () := by
  rw [checkRange, rangeFault?_eq_none_iff.mpr range]

theorem exists_checkRange_eq_raise {side : Side} {length : Int32} {size : Nat}
    (outside : ¬InRange side.position length size) : ∃ message,
    checkRange side length size = raise .arrayIndexOutOfBoundsException (some message) := by
  obtain ⟨message, fault⟩ :=
    Option.ne_none_iff_exists'.mp (mt rangeFault?_eq_none_iff.mp outside)
  exact ⟨message, by rw [checkRange, fault]⟩

/-! ## Elements that are checked -/

section

variable {machine : Machine} {target : Ref} {component : ClassId}

/-- Whether a machine finds that an element may be stored as one of a class. -/
def Storable (machine : Machine) (component : ClassId) : Option Ref → Prop
  | none => True
  | some ref => ∃ cls, machine.heap.class? ref = some cls ∧
      machine.registry.isAssignable cls component = true

/-- Whether so many elements of an array may be stored as ones of a class, from a place on. -/
def StorableFrom (machine : Machine) (component : ClassId) (elements : ArrayData)
    (start count : Nat) : Prop :=
  ∀ offset < count, ∀ element, elements.get? (start + offset) = some (.ref element) →
    Storable machine component element

theorem storable_putArray_iff {data : ArrayData} {element : Option Ref} :
    Storable (machine.putArray target data) component element ↔
      Storable machine component element := by
  cases element with
  | none => exact Iff.rfl
  | some ref =>
      rw [Storable, class?_putArray]
      rfl

theorem run_classOf {ref : Ref} {cls : ClassId} (live : machine.heap.class? ref = some cls) :
    classOf ref machine = .ok cls machine := by
  rw [classOf, bind_of_ok (run_get machine), live]
  rfl

section

variable {array : Array (Option Ref)} (held : machine.heap.array? target = some (.refs array))

include held

/-- An element that may be stored is stored. -/
theorem run_copyChecked_cons {element : Option Ref} (storable : Storable machine component element)
    (place : Nat) (rest : List (Option Ref)) :
    copyChecked target component place (element :: rest) machine =
      copyChecked target component (place + 1) rest
        (machine.putArray target (.refs (array.setIfInBounds place element))) := by
  have stores : (do
      modify fun machine => machine.modifyHeap fun heap => heap.modifyArray target fun data =>
        data.set place (.ref element)
      copyChecked target component (place + 1) rest : Guest Unit) machine =
        copyChecked target component (place + 1) rest
          (machine.putArray target (.refs (array.setIfInBounds place element))) := by
    rw [bind_of_ok (run_modify _ machine), modifyArray_eq_putArray held]
    rfl
  cases element with
  | none => exact stores
  | some ref =>
      obtain ⟨cls, live, assignable⟩ := storable
      refine (bind_of_ok (run_classOf live)).trans ((bind_of_ok (run_get machine)).trans ?_)
      dsimp only
      rw [assignable]
      exact stores

/-- Elements that may be stored are stored one after the other, as if at once. -/
theorem run_copyChecked_append {elements : List (Option Ref)}
    (storable : ∀ element ∈ elements, Storable machine component element) (place : Nat)
    (rest : List (Option Ref)) :
    copyChecked target component place (elements ++ rest) machine =
      copyChecked target component (place + elements.length) rest
        (machine.putArray target (.refs (ArrayData.splice array place elements))) := by
  induction elements generalizing machine array place with
  | nil => rw [ArrayData.splice, putArray_self held, List.nil_append, List.length_nil, Nat.add_zero]
  | cons element elements ih =>
      obtain ⟨here, later⟩ := List.forall_mem_cons.mp storable
      rw [List.cons_append, run_copyChecked_cons held here,
        ih (array?_putArray held) (fun other member =>
          storable_putArray_iff.mpr (later other member)),
        putArray_putArray, ArrayData.splice, List.length_cons, Nat.add_assoc, Nat.add_comm 1]

end

/-- An element that may not be stored ends the copy. -/
theorem exists_copyChecked_eq_raise {ref : Ref} {cls : ClassId}
    (live : machine.heap.class? ref = some cls)
    (refused : machine.registry.isAssignable cls component = false) (place : Nat)
    (rest : List (Option Ref)) : ∃ message,
    copyChecked target component place (some ref :: rest) machine =
      raise .arrayStoreException (some message) machine := by
  have ran : copyChecked target component place (some ref :: rest) machine = _ :=
    (bind_of_ok (run_classOf live)).trans (bind_of_ok (run_get machine))
  dsimp only at ran
  rw [refused] at ran
  exact ⟨_, ran.trans (congrFun (raise_bind _ _ _) machine)⟩

/-- An element that denotes no object ends the execution. -/
theorem run_copyChecked_of_dead {ref : Ref} (dead : machine.heap.class? ref = none) (place : Nat)
    (rest : List (Option Ref)) :
    copyChecked target component place (some ref :: rest) machine =
      .error (.fatal (.invalidState (.notLive ref))) machine := by
  have fails : classOf ref machine = .error (.fatal (.invalidState (.notLive ref))) machine := by
    rw [classOf, bind_of_ok (run_get machine), dead]
    rfl
  change (classOf ref >>= _) machine = _
  simp only [bind, EStateM.bind, fails]

end

/-! ## Ranges of references -/

theorem exists_refs_of_kind {data : ArrayData} (kind : data.kind = .reference) :
    ∃ items, data = .refs items := by
  cases data with
  | refs items => exact ⟨items, rfl⟩
  | _ => cases kind

theorem get?_refs_eq_some_iff {items : Array (Option Ref)} {index : Nat} {element : Option Ref} :
    (ArrayData.refs items).get? index = some (.ref element) ↔ items[index]? = some element := by
  refine Option.map_eq_some_iff.trans ⟨?_, fun here => ⟨element, here, rfl⟩⟩
  rintro ⟨other, here, ⟨⟩⟩
  exact here

section

variable {α : Type} {items : Array α} {start count offset : Nat} {element : α}

theorem toList_extract (items : Array α) (start count : Nat) :
    (items.extract start (start + count)).toList = (items.toList.drop start).take count := by
  rw [Array.toList_extract, List.extract_eq_take_drop, Nat.add_sub_cancel_left]

/-- A range goes on behind its first elements. -/
theorem exists_toList_extract_eq (below : offset < count)
    (here : items[start + offset]? = some element) : ∃ rest,
    (items.extract start (start + count)).toList =
      (items.extract start (start + offset)).toList ++ element :: rest := by
  rw [toList_extract, toList_extract]
  generalize behind : items.toList.drop start = later
  have found : later[offset]? = some element := by
    rw [← behind, List.getElem?_drop, Array.getElem?_toList]
    exact here
  obtain ⟨within, rfl⟩ := List.getElem?_eq_some_iff.mp found
  have first : (later.take count).take offset = later.take offset := by
    rw [List.take_take, Nat.min_eq_left (Nat.le_of_lt below)]
  have split := List.take_append_drop offset (later.take count)
  have nonempty : offset < (later.take count).length := by
    rw [List.length_take]
    omega
  rw [first, List.drop_eq_getElem_cons nonempty, List.getElem_take] at split
  exact ⟨_, split.symm⟩

theorem exists_getElem?_of_mem_extract
    (member : element ∈ (items.extract start (start + count)).toList) :
    ∃ offset < count, items[start + offset]? = some element := by
  rw [toList_extract] at member
  obtain ⟨offset, found⟩ := List.mem_iff_getElem?.mp member
  rw [List.getElem?_take] at found
  split at found
  next below =>
    rw [List.getElem?_drop, Array.getElem?_toList] at found
    exact ⟨offset, below, found⟩
  next => cases found

end

/-- A range of elements that may be stored is stored, and the copy goes on behind it. -/
theorem run_copyChecked_range {machine : Machine} {target : Ref} {component : ClassId}
    {array items : Array (Option Ref)} (held : machine.heap.array? target = some (.refs array))
    {start count : Nat} (inside : start + count ≤ items.size)
    (storable : ∀ offset < count, ∀ element, items[start + offset]? = some element →
      Storable machine component element) (place : Nat) (rest : List (Option Ref)) :
    copyChecked target component place
        ((items.extract start (start + count)).toList ++ rest) machine =
      copyChecked target component (place + count) rest
        (machine.putArray target (.refs (ArrayData.transfer array place items start count))) := by
  have length : (items.extract start (start + count)).toList.length = count := by
    rw [Array.length_toList, Array.size_extract]
    omega
  rw [run_copyChecked_append held, length, ArrayData.transfer]
  intro element member
  obtain ⟨offset, below, here⟩ := exists_getElem?_of_mem_extract member
  exact storable offset below element here

/-! ## Elements of two arrays -/

/-- The class of the elements of arrays of a class. -/
def componentOf (machine : Machine) (cls : ClassId) : Option ClassId :=
  (machine.cls cls).array.bind (·.component)

section

variable {machine : Machine} {source target part component : ClassId}
  (ordinary : (machine.cls target).name ≠ ClassTable.objectName)
  (sourcePart : componentOf machine source = some part)
  (targetPart : componentOf machine target = some component)

include ordinary sourcePart targetPart

/-- Of two array classes, one is assignable to the other one as their components are. -/
theorem isAssignable_eq_of_components (apart : source ≠ target) :
    machine.registry.isAssignable source target =
      if part.index < source.index then machine.registry.isAssignable part component
      else false := by
  obtain ⟨held, found, parts⟩ := Option.bind_eq_some_iff.mp sourcePart
  obtain ⟨wanted, found', parts'⟩ := Option.bind_eq_some_iff.mp targetPart
  have found : (machine.registry.get source).array = some held := found
  have found' : (machine.registry.get target).array = some wanted := found'
  have ordinary : ¬((machine.registry.get target).name == ClassTable.objectName) = true :=
    fun root => ordinary (eq_of_beq root)
  rw [ClassTable.isAssignable, if_neg apart]
  dsimp only
  rw [if_neg ordinary, found, found']
  dsimp only
  rw [parts, parts']

theorem isAssignable_of_arrays
    (assignable : machine.registry.isAssignable source target = true) :
    machine.registry.isAssignable part component = true := by
  by_cases same : source = target
  · subst same
    cases sourcePart.symm.trans targetPart
    rw [ClassTable.isAssignable, if_pos rfl]
  · rw [isAssignable_eq_of_components ordinary sourcePart targetPart same] at assignable
    split at assignable
    next => exact assignable
    next => cases assignable

end

/-- Whether elements have to be checked against a class that go from arrays of one class to arrays
of another one: the former are not all arrays of the latter. -/
structure Checks (machine : Machine) (sourceClass targetClass component : ClassId) : Prop where
  references : elementKind machine targetClass = some .reference
  unrelated : machine.registry.isAssignable sourceClass targetClass = false
  component : componentOf machine targetClass = some component

theorem checkedAgainst_eq_some_iff {machine : Machine}
    {sourceClass targetClass component : ClassId} :
    checkedAgainst machine sourceClass targetClass = some component ↔
      Checks machine sourceClass targetClass component := by
  rw [checkedAgainst]
  constructor
  · intro found
    split at found
    next => cases found
    next references =>
      split at found
      next => cases found
      next unrelated => exact ⟨not_not.mp references, Bool.eq_false_iff.mpr unrelated, found⟩
  · rintro ⟨references, unrelated, component⟩
    rw [if_neg (not_not.mpr references), if_neg (Bool.eq_false_iff.mp unrelated)]
    exact component

/-- Whether a handle is that of an array of a class, with these elements. -/
structure HasArray (machine : Machine) (ref : Ref) (cls : ClassId) (data : ArrayData) : Prop where
  cls : machine.heap.class? ref = some cls
  data : machine.heap.array? ref = some data

namespace HasArray

variable {machine : Machine} {ref : Ref} {cls : ClassId} {data : ArrayData}
  (array : HasArray machine ref cls data) (shapely : machine.Shapely)

include array shapely

/-- Elements are stored as those of the class are. -/
theorem exists_kind :
    ∃ kind, elementKind machine cls = some kind ∧ data.kind = kind.storage := by
  obtain ⟨object, live, held⟩ := Heap.array?_eq_some_iff.mp array.data
  have same : object.cls = cls := by
    have found := array.cls
    rw [Heap.class?, live] at found
    exact Option.some.inj found
  subst same
  have forms := shapely.forms live
  have body := Object.array?_eq_some_iff.mp held
  obtain ⟨info, found⟩ := Option.isSome_iff_exists.mp (forms.isArray_iff.mp ⟨data, body⟩)
  exact ⟨info.element, congrArg (Option.map _) found, forms.kind_eq body found⟩

/-- An array class does not have the name of the root. -/
theorem ne_objectName : (machine.cls cls).name ≠ ClassTable.objectName := by
  obtain ⟨kind, found, -⟩ := array.exists_kind shapely
  obtain ⟨object, live, rfl⟩ := Option.map_eq_some_iff.mp array.cls
  have isArray : (machine.cls object.cls).isArray = true := by
    obtain ⟨info, held, -⟩ := Option.map_eq_some_iff.mp found
    rw [Class.isArray, held, Option.isSome_some]
  have named := (shapely.laid.arrays object.cls (shapely.forms live).known isArray).1
  intro root
  change ArrayName.isArrayName (machine.cls object.cls).name = true at named
  rw [root] at named
  cases named

theorem kind_eq {kind : Kind} (element : elementKind machine cls = some kind) :
    data.kind = kind.storage := by
  obtain ⟨other, found, stored⟩ := array.exists_kind shapely
  cases element.symm.trans found
  exact stored

end HasArray

section

variable {machine : Machine} {source target : Ref} {sourceClass targetClass : ClassId}
  {elements old : ArrayData} {start place count : Nat}
  (sourceArray : HasArray machine source sourceClass elements)
  (targetArray : HasArray machine target targetClass old) (same : old.kind = elements.kind)

include sourceArray same

/-- Elements that have to be checked are those of arrays of references. -/
theorem exists_copyElements_checked (apart : source ≠ target) {component : ClassId}
    (checks : Checks machine sourceClass targetClass component)
    (references : old.kind = .reference) (start place count : Nat) :
    ∃ items array, elements = .refs items ∧ old = .refs array ∧
      copyElements source target sourceClass targetClass start place count machine =
        copyChecked target component place (items.extract start (start + count)).toList
          machine := by
  obtain ⟨array, rfl⟩ := exists_refs_of_kind references
  obtain ⟨items, rfl⟩ := exists_refs_of_kind (same.symm.trans references)
  refine ⟨items, array, rfl, rfl, ?_⟩
  rw [copyElements, if_neg apart, bind_of_ok (run_get machine),
    checkedAgainst_eq_some_iff.mpr checks]
  dsimp only
  rw [referencesAt, sourceArray.data]

variable (inside : start + count ≤ elements.size) (room : place + count ≤ old.size)

include targetArray inside room

/-- Elements that need not be checked are copied at once. -/
theorem exists_copyElements_unchecked
    (unchecked : source = target ∨ checkedAgainst machine sourceClass targetClass = none) :
    ∃ after, elements.Copied start old place count after ∧
      copyElements source target sourceClass targetClass start place count machine =
        .ok () (machine.putArray target after) := by
  refine ⟨_, ArrayData.copied_copyFrom? same room inside, ?_⟩
  rw [copyElements]
  by_cases one : source = target
  · subst one
    cases sourceArray.data.symm.trans targetArray.data
    rw [if_pos rfl, run_modify, modifyArray_eq_putArray targetArray.data, ArrayData.copyWithin_eq]
  · rw [if_neg one, bind_of_ok (run_get machine), unchecked.resolve_left one]
    dsimp only
    rw [run_modify, ← modifyArray_eq_putArray targetArray.data fun data =>
      (data.copyFrom? place elements start count).getD data]
    simp only [modifyHeap, sourceArray.data]

variable (apart : source ≠ target) {component : ClassId}
  (checks : Checks machine sourceClass targetClass component)

include apart checks

/-- Elements are copied one after the other as long as they may be stored. -/
theorem exists_copyElements_storable (references : old.kind = .reference)
    (storable : StorableFrom machine component elements start count) :
    ∃ after, elements.Copied start old place count after ∧
      copyElements source target sourceClass targetClass start place count machine =
        .ok () (machine.putArray target after) := by
  obtain ⟨items, array, rfl, rfl, ran⟩ :=
    exists_copyElements_checked sourceArray same apart checks references start place count
  refine ⟨_, ArrayData.copied_copyFrom? same room inside, ran.trans ?_⟩
  have stored := run_copyChecked_range targetArray.data inside (fun offset below element here =>
    storable offset below element (get?_refs_eq_some_iff.mpr here)) place []
  rw [List.append_nil] at stored
  exact stored

/-- The first element that may not be stored is met when those before it are copied. -/
theorem exists_copyElements_stopped (references : old.kind = .reference) {offset : Nat}
    (below : offset < count) {element : Option Ref}
    (here : elements.get? (start + offset) = some (.ref element))
    (storable : StorableFrom machine component elements start offset) :
    ∃ after rest, elements.Copied start old place offset after ∧
      copyElements source target sourceClass targetClass start place count machine =
        copyChecked target component (place + offset) (element :: rest)
          (machine.putArray target after) := by
  obtain ⟨items, array, rfl, rfl, ran⟩ :=
    exists_copyElements_checked sourceArray same apart checks references start place count
  have found := get?_refs_eq_some_iff.mp here
  obtain ⟨rest, split⟩ := exists_toList_extract_eq below found
  have copied : (ArrayData.refs items).Copied start (.refs array) place offset _ :=
    ArrayData.copied_copyFrom? same (by omega) (by omega)
  refine ⟨_, rest, copied, ?_⟩
  rw [ran, split]
  exact run_copyChecked_range targetArray.data (Nat.le_trans (by omega) inside)
    (fun earlier before other there =>
      storable earlier before other (get?_refs_eq_some_iff.mpr there)) place _

end

/-! ## The whole copy -/

/-- The arrays that a copy is asked for, and their elements. -/
structure Operands (machine : Machine) (arguments : NativeArgs) (source target : Ref)
    (sourceClass targetClass : ClassId) (elements old : ArrayData) : Prop where
  sourceRef : arguments.ref 0 = some source
  targetRef : arguments.ref 2 = some target
  sourceArray : HasArray machine source sourceClass elements
  targetArray : HasArray machine target targetClass old

/-- Whether both ranges of a copy lie in their arrays. -/
structure Fits (arguments : NativeArgs) (elements old : ArrayData) : Prop where
  source : InRange (arguments.int 1) (arguments.int 4) elements.size
  target : InRange (arguments.int 3) (arguments.int 4) old.size

/-- Where a copy reads from on, where it writes to, and how much it copies. -/
abbrev startOf (arguments : NativeArgs) : Nat := (arguments.int 1).toNatClampNeg

abbrev placeOf (arguments : NativeArgs) : Nat := (arguments.int 3).toNatClampNeg

abbrev countOf (arguments : NativeArgs) : Nat := (arguments.int 4).toNatClampNeg

/-- Whether a step raises an exception of a kind once it has reached a machine. -/
def RaisesIn {α : Type} (step : Guest α) (machine : Machine) (kind : ExceptionKind)
    (reached : Machine) : Prop :=
  ∃ message, step machine = raise kind (some message) reached ∧
    ∃ raised after, step machine = .error raised after ∧ reached.Raised kind raised after

/-- What is left of a copy once the arrays are found to have elements of one kind. -/
def copyRange (arguments : NativeArgs) (source target : Ref) (sourceClass targetClass : ClassId)
    (sourceSize targetSize : Nat) : Guest Unit :=
  copyBetween ⟨"source", source, arguments.int 1⟩ ⟨"destination", target, arguments.int 3⟩
    (arguments.int 4) sourceSize targetSize sourceClass targetClass

section

variable {machine : Machine} {arguments : NativeArgs} {source target : Ref}
  {sourceClass targetClass : ClassId} {elements old : ArrayData}

theorem run_sizeOf {side : Side} {data : ArrayData}
    (held : machine.heap.array? side.array = some data) :
    sizeOf side machine = .ok data.size machine := by
  rw [sizeOf, bind_of_ok (run_get machine), held]
  rfl

theorem exists_checkRange_bind_eq_raise {next : Guest Unit} {side : Side} {length : Int32}
    {size : Nat} (outside : ¬InRange side.position length size) : ∃ message,
    (do checkRange side length size; next) =
      raise .arrayIndexOutOfBoundsException (some message) := by
  obtain ⟨message, raises⟩ := exists_checkRange_eq_raise outside
  exact ⟨message, by rw [raises, raise_bind]⟩

/-- A range that does not lie in its array is refused. -/
theorem exists_copyRange_eq_raise (outside : ¬Fits arguments elements old) : ∃ message,
    copyRange arguments source target sourceClass targetClass elements.size old.size =
      raise .arrayIndexOutOfBoundsException (some message) := by
  by_cases range : InRange (arguments.int 1) (arguments.int 4) elements.size
  · rw [copyRange, copyBetween, checkRange_of_inRange range, pure_bind]
    exact exists_checkRange_bind_eq_raise fun other => outside ⟨range, other⟩
  · exact exists_checkRange_bind_eq_raise range

theorem copyRange_of_fits (fits : Fits arguments elements old) :
    copyRange arguments source target sourceClass targetClass elements.size old.size =
      if arguments.int 4 ≠ 0 then
        copyElements source target sourceClass targetClass (startOf arguments) (placeOf arguments)
          (countOf arguments)
      else pure () := by
  rw [copyRange, copyBetween, checkRange_of_inRange fits.source, pure_bind,
    checkRange_of_inRange fits.target, pure_bind]

section

variable (operands : Operands machine arguments source target sourceClass targetClass elements old)

include operands

/-- The kinds of elements are compared before the ranges are looked at. -/
theorem exists_copy_eq : ∃ message, copy arguments machine =
    (if elementKind machine sourceClass ≠ elementKind machine targetClass then
      (refuse message : Guest PUnit) >>= fun _ =>
        copyRange arguments source target sourceClass targetClass elements.size old.size
    else
      copyRange arguments source target sourceClass targetClass elements.size old.size)
        machine := by
  obtain ⟨sourceRef, targetRef, ⟨sourceHeld, sourceData⟩, targetHeld, targetData⟩ := operands
  rw [copy, sourceRef, targetRef]
  exact ⟨_, (bind_of_ok rfl).trans <| (bind_of_ok rfl).trans <|
    (bind_of_ok (run_sizeOf sourceData)).trans <| (bind_of_ok (run_sizeOf targetData)).trans <|
    (bind_of_ok (run_classOf sourceHeld)).trans <| (bind_of_ok (run_classOf targetHeld)).trans <|
    bind_of_ok (run_get machine)⟩

theorem exists_copy_eq_raise
    (differ : elementKind machine sourceClass ≠ elementKind machine targetClass) : ∃ message,
    copy arguments machine = raise .arrayStoreException (some message) machine := by
  obtain ⟨message, ran⟩ := exists_copy_eq operands
  rw [if_pos differ, refuse, raise_bind] at ran
  exact ⟨_, ran⟩

section

variable (kinds : elementKind machine sourceClass = elementKind machine targetClass)

include kinds

theorem copy_eq_copyRange : copy arguments machine =
    copyRange arguments source target sourceClass targetClass elements.size old.size machine := by
  obtain ⟨message, ran⟩ := exists_copy_eq operands
  rwa [if_neg (not_not.mpr kinds)] at ran

theorem kind_eq_of_elementKind (shapely : machine.Shapely) : old.kind = elements.kind := by
  obtain ⟨kind, found, stored⟩ := operands.sourceArray.exists_kind shapely
  rw [stored, operands.targetArray.kind_eq shapely (kinds.symm.trans found)]

variable (fits : Fits arguments elements old)

include fits

/-- What is copied replaces a range, if all that is checked may be stored. -/
theorem exists_copy_eq_ok (shapely : machine.Shapely)
    (storable : ∀ component, source ≠ target → Checks machine sourceClass targetClass component →
      StorableFrom machine component elements (startOf arguments) (countOf arguments)) :
    ∃ after, elements.Copied (startOf arguments) old (placeOf arguments) (countOf arguments) after ∧
      copy arguments machine = .ok () (machine.putArray target after) := by
  have same := kind_eq_of_elementKind operands kinds shapely
  have inside := fits.source.start_add_count_le
  have room := fits.target.start_add_count_le
  rw [copy_eq_copyRange operands kinds, copyRange_of_fits fits]
  split
  next =>
    by_cases unchecked : source = target ∨ checkedAgainst machine sourceClass targetClass = none
    · exact exists_copyElements_unchecked operands.sourceArray operands.targetArray same inside room
        unchecked
    · obtain ⟨apart, checked⟩ := not_or.mp unchecked
      obtain ⟨component, checked⟩ := Option.ne_none_iff_exists'.mp checked
      have checks := checkedAgainst_eq_some_iff.mp checked
      exact exists_copyElements_storable operands.sourceArray operands.targetArray same inside room
        apart checks (operands.targetArray.kind_eq shapely checks.references)
        (storable component apart checks)
  next none =>
    have zero : arguments.int 4 = 0 := not_not.mp none
    rw [countOf, zero]
    refine ⟨old, .refl _ _ _ _, ?_⟩
    rw [putArray_self operands.targetArray.data]
    rfl

/-- The first element that may not be stored is met when those before it are copied. -/
theorem exists_copy_eq_copyChecked (shapely : machine.Shapely) (apart : source ≠ target)
    {component : ClassId} (checks : Checks machine sourceClass targetClass component) {offset : Nat}
    (below : offset < countOf arguments) {element : Option Ref}
    (here : elements.get? (startOf arguments + offset) = some (.ref element))
    (storable : StorableFrom machine component elements (startOf arguments) offset) :
    ∃ after rest, elements.Copied (startOf arguments) old (placeOf arguments) offset after ∧
      copy arguments machine = copyChecked target component
        (placeOf arguments + offset) (element :: rest)
          (machine.putArray target after) := by
  have same := kind_eq_of_elementKind operands kinds shapely
  have references := operands.targetArray.kind_eq shapely checks.references
  have some : arguments.int 4 ≠ 0 := by
    intro zero
    rw [countOf, zero] at below
    exact absurd below (Nat.not_lt_zero _)
  rw [copy_eq_copyRange operands kinds, copyRange_of_fits fits, if_pos some]
  exact exists_copyElements_stopped operands.sourceArray operands.targetArray same
    fits.source.start_add_count_le fits.target.start_add_count_le apart checks references below here
    storable

end

end

/-! ### What unchecked elements are -/

/-- Elements go unchecked from arrays of one class to arrays of another one if what fits the
former fits the latter, as far as assignability is transitive. -/
theorem storable_of_not_checks (shapely : machine.Shapely)
    (targetArray : HasArray machine target targetClass old)
    (transitive : ∀ first second third, machine.registry.isAssignable first second = true →
      machine.registry.isAssignable second third = true →
        machine.registry.isAssignable first third = true)
    (references : elementKind machine targetClass = some .reference) {part component : ClassId}
    (sourcePart : componentOf machine sourceClass = some part)
    (targetPart : componentOf machine targetClass = some component)
    (unchecked : ¬Checks machine sourceClass targetClass component) {element : Option Ref}
    (storable : Storable machine part element) : Storable machine component element := by
  have related : machine.registry.isAssignable sourceClass targetClass = true := by
    by_contra unrelated
    exact unchecked ⟨references, Bool.eq_false_iff.mpr unrelated, targetPart⟩
  have parts :=
    isAssignable_of_arrays (targetArray.ne_objectName shapely) sourcePart targetPart related
  cases element with
  | none => trivial
  | some ref =>
      obtain ⟨cls, live, assignable⟩ := storable
      exact ⟨cls, live, transitive cls part component assignable parts⟩

/-! ### Ends of a copy -/

theorem run_arraycopy_of_ok {after : Machine} (ran : copy arguments machine = .ok () after) :
    run .arraycopy arguments machine = .ok .void after :=
  bind_of_ok ran

theorem run_arraycopy_of_error {raised : Throw} {after : Machine}
    (ran : copy arguments machine = .error raised after) :
    run .arraycopy arguments machine = .error raised after := by
  change (copy arguments >>= fun _ => pure Value.void) machine = _
  simp only [bind, EStateM.bind, ran]

/-- An exception that ends the copy ends the native. -/
theorem raisesIn_of_copy {kind : ExceptionKind} {reached : Machine} (room : reached.Spacious)
    (raises : ∃ message, copy arguments machine = raise kind (some message) reached) :
    RaisesIn (run .arraycopy arguments) machine kind reached := by
  obtain ⟨message, ran⟩ := raises
  have raises : ∃ raised after, (raise kind (some message) : Guest Value) reached =
      .error raised after ∧ reached.Raised kind raised after :=
    exists_raise room kind (some message)
  have same : run .arraycopy arguments machine = raise kind (some message) reached := by
    have ended := congrFun (raise_bind kind (some message) fun _ : Unit =>
      (pure Value.void : Guest Value)) reached
    change (copy arguments >>= fun _ => pure Value.void) machine = _
    simp only [bind, EStateM.bind] at ended ⊢
    rw [ran]
    exact ended
  obtain ⟨raised, after, ended, made⟩ := raises
  exact ⟨message, same, raised, after, same.trans ended, made⟩

theorem spacious_putArray {after : ArrayData} (room : machine.Spacious)
    (targetArray : HasArray machine target targetClass old) {start place count : Nat}
    (copied : elements.Copied start old place count after) :
    (machine.putArray target after).Spacious := by
  have writes := rewrites_putArray targetArray.data copied.kind copied.size
  have turn : machine.heap.Turn (machine.putArray target after).heap :=
    .keeps writes.toSameShapes writes.toSameCounts
  refine ⟨turn.balanced room.balanced, ?_⟩
  rw [turn.limit_eq]
  exact room.small

end

end SystemNative

namespace Machine

/-! ## Machines that copies are made in -/

variable {before after origin later between : Machine}

theorem Undergoes.counts (undergoes : before.Undergoes after) : Counts before after := by
  cases undergoes with
  | returns operation _ ran => exact operation.tallies.ok ran
  | throws operation _ ran => exact operation.tallies.error ran

theorem counts_of_run (run : Relation.ReflTransGen Undergoes origin later) :
    Counts origin later := by
  induction run with
  | refl => exact .refl
  | tail _ undergoes ih => exact ih.trans undergoes.counts

/-- Machines are in shape and have room all along a run. -/
theorem shapely_and_spacious_of_run {config : Config} {classes : ClassPath}
    (started : start config classes = .ok origin)
    (small : config.heapLimit < Heap.handles * Object.headerSize)
    (run : Relation.ReflTransGen Undergoes origin later) (goes : Shapes later between) :
    between.Shapely ∧ between.Spacious := by
  obtain ⟨balanced, limit⟩ := balanced_of_start started
  have whole : Counts origin between := (counts_of_run run).trans goes.counted
  refine ⟨goes.shapely (shapely_of_run run (shapely_of_start started)), whole.balanced balanced, ?_⟩
  rw [whole.limit_eq, limit]
  exact small

end Machine

namespace SystemNative

open Machine

variable {machine : Machine} {arguments : NativeArgs} {source target : Ref}
  {sourceClass targetClass : ClassId} {elements old : ArrayData}

/-- A copy is atomic but for the elements that it has to check. Take any two arrays, or one
array twice, any positions and any length. If the elements are of different kinds or one of the
ranges does not lie in its array, the exception for this case is raised in the machine as it was.
Otherwise the range of the target becomes what the range of the source was before, and nothing
else changes, if every element that is checked may be stored. Elements are checked if the arrays
are different and the class of the source is not assignable to that of the target. The first one
that may not be stored is met when just those before it are copied: then an exception is raised,
or the execution ends if it denotes no object. What goes unchecked may be stored all the same
where assignability is transitive, if it may be stored in the source. Whatever comes of raising
an exception, what is reached stays as it is. Machines are as required at every moment of every
run below a limit that leaves a handle for each object. -/
theorem arraycopy_moves_range (shapely : machine.Shapely) (room : machine.Spacious)
    (operands : Operands machine arguments source target sourceClass targetClass elements old) :
    (elementKind machine sourceClass ≠ elementKind machine targetClass →
      RaisesIn (run .arraycopy arguments) machine .arrayStoreException machine) ∧
    (elementKind machine sourceClass = elementKind machine targetClass →
      ¬Fits arguments elements old →
      RaisesIn (run .arraycopy arguments) machine .arrayIndexOutOfBoundsException machine) ∧
    (elementKind machine sourceClass = elementKind machine targetClass →
      Fits arguments elements old →
      (∀ component, source ≠ target → Checks machine sourceClass targetClass component →
        StorableFrom machine component elements (startOf arguments) (countOf arguments)) →
      ∃ after,
        elements.Copied (startOf arguments) old (placeOf arguments) (countOf arguments) after ∧
        run .arraycopy arguments machine = .ok .void (machine.putArray target after)) ∧
    (elementKind machine sourceClass = elementKind machine targetClass →
      Fits arguments elements old → source ≠ target →
      ∀ component, Checks machine sourceClass targetClass component →
        ∀ offset < countOf arguments, ∀ ref,
          elements.get? (startOf arguments + offset) = some (.ref (some ref)) →
          StorableFrom machine component elements (startOf arguments) offset →
      ∃ after, elements.Copied (startOf arguments) old (placeOf arguments) offset after ∧
        (∀ cls, machine.heap.class? ref = some cls →
          machine.registry.isAssignable cls component = false →
          RaisesIn (run .arraycopy arguments) machine .arrayStoreException
            (machine.putArray target after)) ∧
        (machine.heap.class? ref = none →
          run .arraycopy arguments machine =
            .error (.fatal (.invalidState (.notLive ref))) (machine.putArray target after))) ∧
    ((∀ first second third, machine.registry.isAssignable first second = true →
        machine.registry.isAssignable second third = true →
          machine.registry.isAssignable first third = true) →
      elementKind machine targetClass = some .reference →
      ∀ part component, componentOf machine sourceClass = some part →
        componentOf machine targetClass = some component →
        ¬Checks machine sourceClass targetClass component →
          ∀ element, Storable machine part element → Storable machine component element) ∧
    (∀ after, (machine.putArray target after).heap.array? target = some after ∧
      ∀ other, target ≠ other →
        (machine.putArray target after).heap.get? other = machine.heap.get? other) ∧
    ∀ config classes origin later between, start config classes = .ok origin →
      config.heapLimit < Heap.handles * Object.headerSize →
      Relation.ReflTransGen Undergoes origin later → Shapes later between →
      between.Shapely ∧ between.Spacious := by
  refine ⟨fun differ => ?_, fun kinds outside => ?_, fun kinds fits storable => ?_, ?_, ?_, ?_, ?_⟩
  · exact raisesIn_of_copy room (exists_copy_eq_raise operands differ)
  · obtain ⟨message, refused⟩ := exists_copyRange_eq_raise outside
    refine raisesIn_of_copy room ⟨message, ?_⟩
    rw [copy_eq_copyRange operands kinds, refused]
  · obtain ⟨after, copied, ran⟩ := exists_copy_eq_ok operands kinds fits shapely storable
    exact ⟨after, copied, run_arraycopy_of_ok ran⟩
  · intro kinds fits apart component checks offset below ref here storable
    obtain ⟨after, rest, copied, ran⟩ :=
      exists_copy_eq_copyChecked operands kinds fits shapely apart checks below here storable
    refine ⟨after, copied, fun cls live refused => ?_, fun dead => ?_⟩
    · have there : (machine.putArray target after).heap.class? ref = some cls :=
        class?_putArray.trans live
      obtain ⟨message, raises⟩ := exists_copyChecked_eq_raise there refused _ rest
      exact raisesIn_of_copy (spacious_putArray room operands.targetArray copied)
        ⟨message, ran.trans raises⟩
    · have there : (machine.putArray target after).heap.class? ref = none :=
        class?_putArray.trans dead
      exact run_arraycopy_of_error (ran.trans (run_copyChecked_of_dead there _ rest))
  · exact fun transitive references part component sourcePart targetPart unchecked element =>
      storable_of_not_checks shapely operands.targetArray transitive references sourcePart
        targetPart unchecked
  · exact fun after => ⟨array?_putArray operands.targetArray.data, fun other different =>
      get?_putArray_of_ne different⟩
  · exact fun _ _ _ _ _ started small run goes =>
      shapely_and_spacious_of_run started small run goes

/-! ### A class below an array class -/

/-- A class without members below another one. -/
def memberless (id : Nat) (name : String) (superclass : Option ClassId) : Class where
  id := ⟨id⟩
  name := name
  flags := 0
  superclass := superclass
  interfaces := []

/-- Arrays of strings and of objects in one and two dimensions, and a class below the arrays of
strings. -/
def mixedClasses : List Class :=
  [memberless 0 ClassTable.objectName none,
    .ofArray ⟨1⟩ "[B" .byte none ⟨0⟩ [],
    memberless 2 "java/lang/String" (some ⟨0⟩),
    .ofArray ⟨3⟩ "[Ljava/lang/String;" .reference (some ⟨2⟩) ⟨0⟩ [],
    .ofArray ⟨4⟩ "[[Ljava/lang/String;" .reference (some ⟨3⟩) ⟨0⟩ [],
    .ofArray ⟨5⟩ "[Ljava/lang/Object;" .reference (some ⟨0⟩) ⟨0⟩ [],
    .ofArray ⟨6⟩ "[[Ljava/lang/Object;" .reference (some ⟨5⟩) ⟨0⟩ [],
    memberless 7 "demo/A" (some ⟨3⟩)]

def mixedTable : ClassTable := mixedClasses.foldl ClassTable.register {}

/-- An array of arrays of strings that has an object of that class in it, and an array of arrays
of objects. -/
def mixed : Machine :=
  { (default : Machine) with
    registry := { toClassTable := mixedTable }
    known := { (default : Machine).known with
      object := ⟨0⟩, cls := ⟨0⟩, string := ⟨0⟩, thread := ⟨0⟩, byteArray := ⟨1⟩ }
    heap := {
      objects := #[
        some { cls := ⟨7⟩, hash := 1, body := .instance (Fields.ofSize 0) },
        some { cls := ⟨4⟩, hash := 2, body := .array (.refs #[some (Ref.ofIndex 0)]) },
        some { cls := ⟨6⟩, hash := 3, body := .array (.refs #[none]) }]
      usedBytes := 56
      limit := 1024
      threshold := 1024
      totalAllocated := 3 } }

/-- Elements of the former are to go into the latter, from the first one on. -/
def mixedCopy (count : Slot) : NativeArgs := ⟨[2, 0, 3, 0, count]⟩

/-- Whether a class without members stands on classes before its own place. -/
structure Stands (place : Nat) (cls : Class) : Prop where
  own : cls.id = ⟨place⟩
  superclass : cls.superclass.all (·.index < place) = true
  component : (cls.array.bind (·.component)).all (·.index < place) = true
  array : cls.isArray = true → ArrayName.isArrayName cls.name = true ∧ cls.isAbstract = true
  interfaces : cls.interfaces = []
  pool : cls.pool = {}
  slots : cls.instanceSlots = 0
  references : cls.refSlots = []

theorem sound_register {table : ClassTable} (sound : table.Closed ∧ table.Laid) {cls : Class}
    (stands : Stands table.size cls) :
    (table.register cls).Closed ∧ (table.register cls).Laid := by
  have grows := ClassTable.growsTo_register table cls
  have above : ∀ id, cls.superclass = some id → table.Has id := by
    intro id found
    have before := stands.superclass
    rw [found] at before
    have lower : id.index < table.size := of_decide_eq_true before
    exact lower
  constructor
  · refine sound.1.register stands.own ⟨fun id found => grows.has (above id found), ?_, ?_,
      fun index => ?_⟩
    · rw [stands.interfaces]
      exact nofun
    · intro info id found held
      have before := stands.component
      rw [found, Option.bind_some, held] at before
      have lower : id.index < table.size := of_decide_eq_true before
      exact grows.has lower
    · rw [stands.pool]
      trivial
  · refine sound.2.register stands.own stands.array above fun _ => ⟨?_, fun _ slot held => ?_⟩
    · rw [stands.slots]
      exact Nat.zero_le _
    · have held : slot ∈ cls.refSlots := held
      rw [stands.references] at held
      cases held

theorem sound_foldl {classes : List Class} {table : ClassTable}
    (sound : table.Closed ∧ table.Laid)
    (stands : ∀ place cls, classes[place]? = some cls → Stands (table.size + place) cls) :
    (classes.foldl ClassTable.register table).Closed ∧
      (classes.foldl ClassTable.register table).Laid := by
  induction classes generalizing table with
  | nil => exact sound
  | cons cls classes ih =>
      refine ih (sound_register sound (stands 0 cls rfl)) fun place other found => ?_
      rw [ClassTable.size_register, Nat.add_right_comm]
      exact stands (place + 1) other found

theorem sound_mixedTable : mixedTable.Closed ∧ mixedTable.Laid := by
  refine sound_foldl ⟨(Registry.closed_ofPath {}).table, .empty⟩ fun place cls found => ?_
  match place with
  | 0 | 1 | 2 | 3 | 4 | 5 | 6 | 7 =>
      cases found
      exact ⟨rfl, by decide, by decide, by decide, rfl, rfl, rfl, rfl⟩
  | place + 8 => cases found

theorem has_mixed {id : ClassId} (below : id.index < 8) : mixed.registry.Has id := below

theorem balanced_mixed : mixed.heap.Balanced where
  unmarked
    | 0 | 1 | 2 | _ + 3 => rfl
  mem_free index := by
    match index with
    | 0 | 1 | 2 => decide
    | index + 3 =>
        have outside : ¬index + 3 < 3 := by omega
        simp [mixed, outside]
  nodup_free := List.nodup_nil
  charged := by decide
  bounded := by decide
  counted := by decide
  places := by decide

theorem spacious_mixed : mixed.Spacious := ⟨balanced_mixed, by decide⟩

theorem shapely_mixed : mixed.Shapely where
  closed := sound_mixedTable.1
  accounted := balanced_mixed.toAccounted
  laid := sound_mixedTable.2
  known :=
    have root : mixed.registry.Makes ⟨0⟩ := ⟨has_mixed (by decide), rfl⟩
    ⟨root, root, root, has_mixed (by decide), rfl⟩
  objects := by
    intro place object held
    match place with
    | 0 | 1 | 2 =>
        cases held
        exact ⟨has_mixed (by decide), rfl⟩
    | place + 3 => cases held

/-- Its superclass makes the one class a subclass of the arrays of strings, which are assignable
to arrays of objects; it is no subclass of these. -/
theorem isAssignable_mixed : mixed.registry.isAssignable ⟨4⟩ ⟨6⟩ = true ∧
    mixed.registry.isAssignable ⟨7⟩ ⟨5⟩ = false := by
  constructor
  · rw [isAssignable_eq_of_components (by decide) (rfl : componentOf mixed ⟨4⟩ = some ⟨3⟩)
      (rfl : componentOf mixed ⟨6⟩ = some ⟨5⟩) (by decide), if_pos (by decide),
      isAssignable_eq_of_components (by decide) (rfl : componentOf mixed ⟨3⟩ = some ⟨2⟩)
      (rfl : componentOf mixed ⟨5⟩ = some ⟨0⟩) (by decide), if_pos (by decide),
      ClassTable.isAssignable, if_neg (by decide)]
    rfl
  · have first : mixed.registry.superclass? ⟨7⟩ = some ⟨3⟩ := rfl
    have second : mixed.registry.superclass? ⟨3⟩ = some ⟨0⟩ := rfl
    have last : mixed.registry.superclass? ⟨0⟩ = none := rfl
    have chain : mixed.registry.superChain ⟨7⟩ = [⟨7⟩, ⟨3⟩, ⟨0⟩] := by
      rw [ClassTable.superChain, first]
      dsimp only
      rw [ClassTable.superChain, second]
      dsimp only
      rw [ClassTable.superChain, last]
    have none : (mixed.registry.get ⟨7⟩).array = none := rfl
    have named : ((mixed.registry.get ⟨5⟩).name == ClassTable.objectName) = false := by decide
    have sort : (mixed.registry.get ⟨5⟩).isInterface = false := by decide
    rw [ClassTable.isAssignable, if_neg (by decide)]
    dsimp only
    rw [named, if_neg (by decide), none]
    dsimp only
    rw [sort, if_neg (by decide), ClassTable.isSubclassOf, chain]
    decide

section

variable (count : Slot)

theorem operands_mixed : Operands mixed (mixedCopy count) (Ref.ofIndex 1) (Ref.ofIndex 2) ⟨4⟩ ⟨6⟩
    (.refs #[some (Ref.ofIndex 0)]) (.refs #[none]) :=
  ⟨rfl, rfl, ⟨rfl, rfl⟩, rfl, rfl⟩

end

theorem kinds_mixed : elementKind mixed ⟨4⟩ = elementKind mixed ⟨6⟩ := by
  have source : elementKind mixed ⟨4⟩ = some .reference := rfl
  have target : elementKind mixed ⟨6⟩ = some .reference := rfl
  rw [source, target]

theorem fits_mixed : Fits (mixedCopy 1) (.refs #[some (Ref.ofIndex 0)]) (.refs #[none]) :=
  ⟨⟨by decide, by decide, by decide⟩, by decide, by decide, by decide⟩

theorem not_checks_mixed (component : ClassId) : ¬Checks mixed ⟨4⟩ ⟨6⟩ component := by
  intro checks
  cases checks.unrelated.symm.trans isAssignable_mixed.1

/-- The element is copied, and one more is not. -/
theorem arraycopy_moves_range_mixed :
    (∃ after, (ArrayData.refs #[some (Ref.ofIndex 0)]).Copied (startOf (mixedCopy 1))
        (.refs #[none]) (placeOf (mixedCopy 1)) (countOf (mixedCopy 1)) after ∧
      run .arraycopy (mixedCopy 1) mixed = .ok .void (mixed.putArray (Ref.ofIndex 2) after)) ∧
    RaisesIn (run .arraycopy (mixedCopy 2)) mixed .arrayIndexOutOfBoundsException mixed := by
  obtain ⟨-, -, copies, -⟩ :=
    arraycopy_moves_range shapely_mixed spacious_mixed (operands_mixed 1)
  obtain ⟨-, refuses, -⟩ :=
    arraycopy_moves_range shapely_mixed spacious_mixed (operands_mixed 2)
  refine ⟨copies kinds_mixed fits_mixed fun component _ checks => ?_,
    refuses kinds_mixed fun fits => ?_⟩
  · exact absurd checks (not_checks_mixed component)
  · exact absurd fits.source.within (by decide)

/-- The element is of a class that is not assignable to that of the elements of the target, and
it is stored there. -/
theorem arraycopy_stores_unassignable :
    Operands mixed (mixedCopy 1) (Ref.ofIndex 1) (Ref.ofIndex 2) ⟨4⟩ ⟨6⟩
      (.refs #[some (Ref.ofIndex 0)]) (.refs #[none]) ∧
    elementKind mixed ⟨4⟩ = elementKind mixed ⟨6⟩ ∧
    Fits (mixedCopy 1) (.refs #[some (Ref.ofIndex 0)]) (.refs #[none]) ∧
    startOf (mixedCopy 1) = 0 ∧ countOf (mixedCopy 1) = 1 ∧
    componentOf mixed ⟨6⟩ = some ⟨5⟩ ∧ mixed.heap.class? (Ref.ofIndex 0) = some ⟨7⟩ ∧
    mixed.registry.isAssignable ⟨7⟩ ⟨5⟩ = false ∧
    ∃ after data, run .arraycopy (mixedCopy 1) mixed = .ok .void after ∧
      after.heap.array? (Ref.ofIndex 2) = some data ∧
      data.get? 0 = some (.ref (some (Ref.ofIndex 0))) := by
  have operands := operands_mixed 1
  obtain ⟨data, copied, ran⟩ := exists_copy_eq_ok operands kinds_mixed fits_mixed shapely_mixed
    fun component _ checks => absurd checks (not_checks_mixed component)
  exact ⟨operands, kinds_mixed, fits_mixed, rfl, rfl, rfl, rfl, isAssignable_mixed.2, _, data,
    run_arraycopy_of_ok ran, array?_putArray operands.targetArray.data,
    copied.inside 0 (by decide)⟩

end SystemNative

end Jvm
