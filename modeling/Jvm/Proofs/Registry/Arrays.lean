import Jvm.Proofs.Registry.Sorting

/-!
# Array classes and their components

The name of an array class spells its component. The registry asks for the array class of a
component by one spelling, with as many brackets as there are dimensions, and finds it by
that name again. A name with brackets behind its `L` is another spelling of the same
component, and registers another class.
-/

namespace Jvm

open ClassTable Linking

/-! ## Spellings -/

namespace ArrayName

variable {name inner : String}

theorem isArrayName_iff : isArrayName name = true ↔ ∃ rest, name.toList = '[' :: rest := by
  unfold isArrayName
  cases name.toList with
  | nil => simp
  | cons head tail => simp

theorem dimensions_eq_zero (ordinary : isArrayName name = false) : dimensions name = 0 := by
  unfold isArrayName at ordinary
  unfold dimensions
  cases chars : name.toList with
  | nil => rfl
  | cons head tail =>
      have apart : head ≠ '[' := by
        rintro rfl
        simp [chars] at ordinary
      simp [apart]

theorem dimensions_pos (array : isArrayName name = true) : 0 < dimensions name := by
  obtain ⟨rest, chars⟩ := isArrayName_iff.mp array
  simp [dimensions, chars]

theorem isArrayName_ofComponent (name : String) (array : Bool) :
    isArrayName (ofComponent name array) = true := by
  cases array <;> simp [isArrayName, ofComponent]

/-- An array class has one dimension more than its component. -/
theorem dimensions_ofComponent {array : Bool} (same : isArrayName name = array) :
    dimensions (ofComponent name array) = dimensions name + 1 := by
  cases array with
  | false =>
      rw [dimensions_eq_zero same]
      simp [ofComponent, dimensions]
  | true => simp [ofComponent, dimensions]

theorem dimensions_ofComponent_false : dimensions (ofComponent name false) = 1 := by
  simp [ofComponent, dimensions]

/-- The name that is asked for spells the component, if there are not too many dimensions. -/
theorem component_ofComponent {array : Bool} (same : isArrayName name = array)
    (few : dimensions name < 255) : component (ofComponent name array) = .ok (.named name) := by
  unfold component
  rw [dimensions_ofComponent same, if_neg (by omega)]
  cases array with
  | false =>
      rw [dimensions_eq_zero same]
      simp [ofComponent, classBetween?]
  | true =>
      have positive := dimensions_pos same
      simp [ofComponent, positive]

/-- Names with too many dimensions spell nothing. -/
theorem few_of_component {part : Component} (found : component name = .ok part) :
    dimensions name ≤ 255 := by
  unfold component at found
  split at found
  · cases found
  · omega

theorem eq_of_classBetween? {chars between : List Char}
    (found : classBetween? chars = some between) : chars = 'L' :: (between ++ [';']) := by
  unfold classBetween? at found
  split at found
  · split at found
    next last =>
        cases found
        rw [List.dropLast_append_getLast? _ last]
    next => cases found
  · cases found

/-- A component is spelled in one of two ways, and in the first one only if it is an array. -/
theorem eq_of_component (array : isArrayName name = true)
    (found : component name = .ok (.named inner)) :
    (isArrayName inner = true ∧ name = ofComponent inner true) ∨ name = ofComponent inner false := by
  obtain ⟨rest, chars⟩ := isArrayName_iff.mp array
  unfold component at found
  split at found
  · cases found
  dsimp only at found
  split at found
  next nested =>
      cases found
      refine .inl ⟨?_, ?_⟩
      · rw [isArrayName_iff, String.toList_ofList, chars]
        rw [dimensions, chars] at nested
        cases rest with
        | nil => simp at nested
        | cons head tail =>
            by_cases same : head = '['
            · exact ⟨tail, same ▸ rfl⟩
            · simp [same] at nested
      · rw [← String.toList_inj, ofComponent]
        simp [chars]
  next =>
      split at found
      next between same =>
          cases found
          have spelled := eq_of_classBetween? same
          rw [chars, List.tail_cons] at spelled
          refine .inr ?_
          rw [← String.toList_inj, ofComponent]
          simp [chars, spelled]
      next =>
          split at found
          · split at found <;> cases found
          · cases found

end ArrayName

/-! ## Arrays of a table -/

/-- Whether a class is the array class that its name spells. -/
structure ClassTable.Spells (table : ClassTable) (cls : Class) (info : ArrayInfo) : Prop where
  named : ArrayName.isArrayName cls.name = true
  sort : cls.isInterface = false
  dimensions : info.dimensions = ArrayName.dimensions cls.name
  made : ArrayName.Made table cls.name info.element info.component
  superclass : cls.superclass.isSome ∧ cls.superclass = table.find? objectName
  interfaces : ∃ cloneable serializable, cls.interfaces = [cloneable, serializable] ∧
    table.find? cloneableName = some cloneable ∧ table.find? serializableName = some serializable

/-- Whether the array classes of a table are those that have the names of arrays. -/
structure ClassTable.Spelled (table : ClassTable) : Prop extends table.Consistent where
  ordinary : ∀ id, table.Has id → (table.get id).array = none →
    ArrayName.isArrayName (table.get id).name = false
  arrays : ∀ id info, table.Has id → (table.get id).array = some info →
    table.Spells (table.get id) info

namespace ArrayName

variable {before after : ClassTable}

theorem Made.few {name : String} {element : Kind} {component : Option ClassId}
    (made : Made before name element component) : dimensions name ≤ 255 := by
  cases made with
  | primitive found => exact few_of_component found
  | component found => exact few_of_component found

theorem Made.mono {name : String} {element : Kind} {component : Option ClassId}
    (made : Made before name element component)
    (kept : ∀ name id, before.find? name = some id → after.find? name = some id) :
    Made after name element component := by
  cases made with
  | primitive found => exact .primitive found
  | component found known => exact .component found (kept _ _ known)

end ArrayName

namespace ClassTable

theorem Spells.mono {before after : ClassTable} {cls : Class} {info : ArrayInfo}
    (spells : before.Spells cls info)
    (kept : ∀ name id, before.find? name = some id → after.find? name = some id) :
    after.Spells cls info where
  named := spells.named
  sort := spells.sort
  dimensions := spells.dimensions
  made := spells.made.mono kept
  superclass := by
    obtain ⟨some, same⟩ := spells.superclass
    obtain ⟨object, known⟩ := Option.isSome_iff_exists.mp some
    exact ⟨some, known.trans (kept _ _ (same ▸ known)).symm⟩
  interfaces := by
    obtain ⟨cloneable, serializable, declared, first, second⟩ := spells.interfaces
    exact ⟨cloneable, serializable, declared, kept _ _ first, kept _ _ second⟩

theorem Spelled.empty : Spelled {} where
  toConsistent := .empty
  ordinary _ known := absurd known (Nat.not_lt_zero _)
  arrays _ _ known := absurd known (Nat.not_lt_zero _)

end ClassTable

namespace Linking

variable {source : ClassFile → Prop} {linking : List String} {before after : ClassTable}

/-- A registration keeps the array classes those with the names of arrays. -/
theorem Registers.spelled (ordinary : ∀ file, source file → file.IsOrdinary)
    (registers : Registers source linking before after) (spelled : before.Spelled) :
    after.Spelled where
  toConsistent := registers.consistent spelled.toConsistent
  ordinary id known plain := by
    cases registers with
    | @file file superclass interfaces cls provided _ _ _ linked =>
        rcases has_register before cls known with old | rfl
        · rw [get_register_of_has before cls old] at plain ⊢
          exact spelled.ordinary id old plain
        · rw [get_register_nextId, (links_of_link linked).name]
          exact ordinary file provided
    | array array =>
        rcases has_register before _ known with old | rfl
        · rw [get_register_of_has before _ old] at plain ⊢
          exact spelled.ordinary id old plain
        · rw [get_register_nextId] at plain
          cases plain
  arrays id info known same := by
    have kept : ∀ name id, before.find? name = some id → after.find? name = some id :=
      fun _ _ => registers.find?
    cases registers with
    | @file file superclass interfaces cls _ _ _ _ linked =>
        rcases has_register before cls known with old | rfl
        · rw [get_register_of_has before cls old] at same ⊢
          exact (spelled.arrays id info old same).mono kept
        · rw [get_register_nextId, (links_of_link linked).array] at same
          cases same
    | @array name kind component object cloneable serializable array _ made root first second =>
        rcases has_register before _ known with old | rfl
        · rw [get_register_of_has before _ old] at same ⊢
          exact (spelled.arrays id info old same).mono kept
        · rw [get_register_nextId] at same ⊢
          cases same
          refine Spells.mono ?_ kept
          exact ⟨array, (Class.isMade_ofArray array ..).sort, rfl, made, ⟨rfl, root.symm⟩,
            cloneable, serializable, rfl, first, second⟩

theorem Extends.spelled (ordinary : ∀ file, source file → file.IsOrdinary)
    (extended : Extends source linking before after) (spelled : before.Spelled) :
    after.Spelled := by
  induction extended with
  | refl => exact spelled
  | tail _ registers ih => exact registers.spelled ordinary ih

end Linking

/-! ## Components -/

namespace ClassTable.Spelled

variable {table : ClassTable} (spelled : table.Spelled)

include spelled

theorem isArray_eq {id : ClassId} (known : table.Has id) :
    ArrayName.isArrayName (table.get id).name = (table.get id).isArray := by
  cases same : (table.get id).array with
  | none => rw [spelled.ordinary id known same, Class.isArray, same]; rfl
  | some info => rw [(spelled.arrays id info known same).named, Class.isArray, same]; rfl

/-- The class found by the name for an array of a component is an array of this component,
with one dimension more. -/
theorem component_of_found {component id : ClassId} (known : table.Has component)
    (found : table.find? (ArrayName.ofComponent (table.get component).name
      (table.get component).isArray) = some id) :
    ∃ info, (table.get id).array = some info ∧ info.component = some component ∧
      info.element = .reference ∧
      info.dimensions = ArrayName.dimensions (table.get component).name + 1 := by
  obtain ⟨inside, called⟩ := (spelled.names _ id).mp found
  have array := ArrayName.isArrayName_ofComponent (table.get component).name
    (table.get component).isArray
  have same := spelled.isArray_eq known
  cases held : (table.get id).array with
  | none =>
      rw [← called, spelled.ordinary id inside held] at array
      cases array
  | some info =>
      have spells := spelled.arrays id info inside held
      have dimensions := spells.dimensions
      rw [called, ArrayName.dimensions_ofComponent same] at dimensions
      have made := spells.made
      refine ⟨info, rfl, ?_⟩
      generalize info.element = element, info.component = part at made ⊢
      have few : ArrayName.dimensions (table.get component).name < 255 := by
        have most := made.few
        rw [called, ArrayName.dimensions_ofComponent same] at most
        exact most
      have spelling := ArrayName.component_ofComponent same few
      rw [← called] at spelling
      cases made with
      | primitive other => cases spelling.symm.trans other
      | @component inner other described known' =>
          cases spelling.symm.trans described
          have self := (spelled.names _ component).mpr ⟨known, rfl⟩
          cases self.symm.trans known'
          exact ⟨rfl, rfl, dimensions⟩

/-- The name of an array class is one of two spellings of its component. -/
theorem name_of_component {id component : ClassId} {info : ArrayInfo} (known : table.Has id)
    (held : (table.get id).array = some info) (part : info.component = some component) :
    (ArrayName.isArrayName (table.get component).name = true ∧
      (table.get id).name = ArrayName.ofComponent (table.get component).name true) ∨
      (table.get id).name = ArrayName.ofComponent (table.get component).name false := by
  have spells := spelled.arrays id info known held
  have named := spells.named
  have made := spells.made
  rw [part] at made
  generalize info.element = element at made
  cases made with
  | component found known =>
      rw [((spelled.names _ _).mp known).2]
      exact ArrayName.eq_of_component named found

/-- Two array classes of one component are the same if they have as many dimensions. -/
theorem eq_of_component {first second component : ClassId} {info other : ArrayInfo}
    (known : table.Has first) (known' : table.Has second)
    (held : (table.get first).array = some info) (held' : (table.get second).array = some other)
    (part : info.component = some component) (part' : other.component = some component)
    (dimensions : info.dimensions = other.dimensions) : first = second := by
  apply spelled.eq_of_name known known'
  rw [(spelled.arrays first info known held).dimensions,
    (spelled.arrays second other known' held').dimensions] at dimensions
  -- the two spellings of an array have different numbers of brackets in front
  have apart (array : ArrayName.isArrayName (table.get component).name = true) :
      ArrayName.dimensions (ArrayName.ofComponent (table.get component).name true) ≠
        ArrayName.dimensions (ArrayName.ofComponent (table.get component).name false) := by
    rw [ArrayName.dimensions_ofComponent array, ArrayName.dimensions_ofComponent_false]
    have := ArrayName.dimensions_pos array
    omega
  rcases spelled.name_of_component known held part with ⟨array, left⟩ | left <;>
    rcases spelled.name_of_component known' held' part' with ⟨array', right⟩ | right
  · rw [left, right]
  · rw [left, right] at dimensions
    exact absurd dimensions (apart array)
  · rw [left, right] at dimensions
    exact absurd dimensions.symm (apart array')
  · rw [left, right]

end ClassTable.Spelled

namespace Registry

variable {path : ClassPath} {defines : ClassFile → Prop} {registry : Registry}

theorem Serves.spelled (ordinary : ∀ file, defines file → file.IsOrdinary)
    (serves : registry.Serves defines path) : registry.Spelled := by
  refine (Serves.extends ordinary serves).2.spelled ?_ .empty
  rintro file (provided | defined)
  · exact provided.ordinary
  · exact ordinary file defined

/-- The array class that a registry gives for a component is an array of it, with one
dimension more. -/
theorem component_of_arrayOf (ordinary : ∀ file, defines file → file.IsOrdinary)
    (serves : registry.Serves defines path) {component id : ClassId}
    (known : registry.Has component) (answered : (registry.arrayOf component).1 = .ok id) :
    (registry.arrayOf component).2.Spelled ∧ (registry.arrayOf component).2.Has id ∧
      ∃ info, ((registry.arrayOf component).2.get id).array = some info ∧
        info.component = some component ∧
        info.dimensions = ArrayName.dimensions (registry.get component).name + 1 := by
  have spelled := Serves.spelled ordinary serves
  have after : (registry.arrayOf component).2.Spelled :=
    Serves.spelled ordinary (serves.tail ⟨.arrayOf component, known, rfl⟩)
  have answers : registry.Answers (.arrayOf component) (registry.arrayOf component) :=
    answers_of_accepted spelled.toConsistent known
  obtain ⟨name, ⟨⟩, found⟩ := answers.linked id answered
  obtain ⟨kept, same⟩ := answers.classes component known
  rw [← same] at found
  obtain ⟨info, held, part, -, dimensions⟩ := after.component_of_found kept found
  rw [same] at dimensions
  exact ⟨after, ((after.names _ id).mp found).1, info, held, part, dimensions⟩

end Registry

end Jvm
