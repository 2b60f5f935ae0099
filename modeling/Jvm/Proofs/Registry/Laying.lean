import Jvm.Proofs.Heap.Shapes
import Jvm.Proofs.Registry.Sorting
import Jvm.Proofs.Registry.Tiles

/-!
# Layouts of linked classes

A class continues the layout of its superclass: its fields come behind those that are
inherited, and its references are held where those are, and in slots of its own. Slot numbers
are 16-bit numbers and start again at zero when they are used up, so the slots of references
are slots of an instance as long as the fields of the class and of those above it are few
enough. An array class has the name of one, is abstract and has no layout.
-/

namespace Jvm

open ClassTable Linking

/-! ## Placing fields -/

/-- Slots that fields of instances take. -/
def Field.instanceWidth (field : Field) : Nat := if field.isStatic then 0 else field.kind.slots

/-- Slots that the instance fields take that a class declares itself. -/
def Class.ownSlots (cls : Class) : Nat := (cls.fields.map Field.instanceWidth).sum

/-- Whether the slots of references are slots of an instance. -/
def Layout.Tight (layout : Layout) : Prop :=
  ∀ slot ∈ layout.refSlots, slot.toNat < layout.instanceSlots.toNat

/-- Whether a layout goes on from another one by so many slots. -/
structure Layout.Extends (before : Layout) (width : Nat) (after : Layout) : Prop where
  slots : after.instanceSlots.toNat = before.instanceSlots.toNat + width
  tight : before.Tight → after.Tight

namespace Layout

variable {before after : Layout}

theorem slotsOf_filter_instance (fields : List Field) :
    slotsOf (fields.filter fun field => field.isStatic == false) =
      (fields.map Field.instanceWidth).sum := by
  induction fields with
  | nil => rfl
  | cons field rest ih =>
      rw [List.filter_cons, List.map_cons, List.sum_cons, Field.instanceWidth, ← ih]
      cases field.isStatic with
      | true => exact (Nat.zero_add _).symm
      | false => exact slotsOf_cons field _

/-- Fields are placed behind those before them while there are slots left. -/
theorem extends_of_placeAll {infos : List FieldInfo} {fields : List Field}
    (placed : before.placeAll infos = .ok (fields, after))
    (room : before.instanceSlots.toNat + (fields.map Field.instanceWidth).sum < UInt16.size) :
    before.Extends (fields.map Field.instanceWidth).sum after := by
  rw [← slotsOf_filter_instance] at room ⊢
  obtain ⟨tiles, noted⟩ := tiles_of_placeAll false placed room
  have finish := tiles.finish_eq
  refine ⟨finish, fun tight slot held => ?_⟩
  have held : slot ∈ before.refSlots ++
      refSlotsOf (fields.filter fun field => field.isStatic == false) := noted ▸ held
  rcases List.mem_append.mp held with inherited | own
  · exact Nat.lt_of_lt_of_le (tight slot inherited) (finish ▸ Nat.le_add_right _ _)
  · obtain ⟨field, member, rfl⟩ := List.mem_map.mp own
    have inside := (tiles.inside (List.mem_filter.mp member).1).2
    exact Nat.lt_of_lt_of_le (Nat.lt_add_of_pos_right field.kind.slots_pos) inside

end Layout

/-! ## Classes -/

namespace Class

/-- Slots of instances and of the references that they hold. -/
def layout (cls : Class) : Layout := Layout.below (some cls)

/-- Whether the layout of a class goes on from that of its superclass, if there are slots
enough for both. -/
def LaidOn (cls : Class) (above : Option Class) : Prop :=
  (Layout.below above).instanceSlots.toNat + cls.ownSlots < UInt16.size →
    cls.instanceSlots.toNat ≤ (Layout.below above).instanceSlots.toNat + cls.ownSlots ∧
      ((Layout.below above).Tight → cls.layout.Tight)

theorem laidOn_of_link {id : ClassId} {file : ClassFile} {superclass : Option Class}
    {interfaces : List ClassId} {cls : Class}
    (linked : Class.link id file superclass interfaces = .ok cls) : cls.LaidOn superclass := by
  simp only [Class.link, Except.bind_eq_ok, pure, Except.pure, Except.ok.injEq] at linked
  obtain ⟨⟨fields, layout⟩, placed, methods, -, rfl⟩ := linked
  intro room
  have extended := Layout.extends_of_placeAll placed room
  exact ⟨Nat.le_of_eq extended.slots, extended.tight⟩

/-- An array class has no layout. -/
theorem laidOn_ofArray (id : ClassId) (name : String) (element : Kind)
    (component : Option ClassId) (superclass : ClassId) (interfaces : List ClassId)
    (above : Option Class) :
    (Class.ofArray id name element component superclass interfaces).LaidOn above :=
  fun _ => ⟨Nat.zero_le _, fun _ _ none => nomatch none⟩

/-- A class without what programs change. -/
def fixed (cls : Class) : Class :=
  { cls with
    pool := {}, methods := #[], statics := none, initState := .uninitialized, mirror := none
    monitor := Monitor.free }

/-- What is read of a class besides what programs change. -/
theorem view_of_fixed {α : Type} {before after : Class} (view : Class → α)
    (blind : ∀ cls : Class, view cls.fixed = view cls) (same : after.fixed = before.fixed) :
    view after = view before :=
  (blind after).symm.trans ((congrArg view same).trans (blind before))

end Class

/-! ## Tables -/

namespace ClassTable

/-- Whether the classes of a table are laid out one on the other, under their names, and the
array classes are abstract and have the names of arrays. -/
structure Laid (table : ClassTable) : Prop where
  own : ∀ id, table.Has id → (table.get id).id = id
  names : ∀ name id, table.find? name = some id → table.Has id ∧ (table.get id).name = name
  arrays : ∀ id, table.Has id → (table.get id).isArray = true →
    ArrayName.isArrayName (table.get id).name = true ∧ (table.get id).isAbstract = true
  slots : ∀ id, table.Has id → (table.get id).LaidOn ((table.superclass? id).map table.get)

theorem Laid.empty : Laid {} where
  own _ known := absurd known (Nat.not_lt_zero _)
  names name _ found := nomatch (find?_empty name).symm.trans found
  arrays _ known := absurd known (Nat.not_lt_zero _)
  slots _ known := absurd known (Nat.not_lt_zero _)

theorem view_map {α : Type} (table : ClassTable) (change : Class → Class) (view : Class → α)
    (same : ∀ cls, view (change cls) = view cls) (id : ClassId) :
    view (({ table with classes := table.classes.map change } : ClassTable).get id) =
      view (table.get id) := by
  simp only [get, Array.getD_eq_getD_getElem?, Array.getElem?_map]
  cases table.classes[id.index]? with
  | none => rfl
  | some cls => exact same cls

/-- Classes that were there are found again once there is a further one. -/
theorem map_get_register (table : ClassTable) (cls : Class) {ids : Option ClassId}
    (known : ∀ id, ids = some id → table.Has id) :
    ids.map (table.register cls).get = ids.map table.get := by
  cases ids with
  | none => rfl
  | some id => exact congrArg some (get_register_of_has table cls (known id rfl))

/-- What relates classes to their superclasses does so once there is a further class. -/
theorem stacked_register (relates : Option Class → Class → Prop) {table : ClassTable} {cls : Class}
    (stacked : ∀ id, table.Has id → relates ((table.superclass? id).map table.get) (table.get id))
    (above : ∀ id, cls.superclass = some id → table.Has id)
    (here : relates (cls.superclass.map table.get) cls) {id : ClassId}
    (known : (table.register cls).Has id) :
    relates (((table.register cls).superclass? id).map (table.register cls).get)
      ((table.register cls).get id) := by
  rcases has_register table cls known with before | rfl
  · have same : (table.register cls).superclass? id = table.superclass? id := by
      rw [superclass?, superclass?, get_register_of_has table cls before]
    rw [same, get_register_of_has table cls before, map_get_register]
    · exact stacked id before
    · exact fun above found => Nat.lt_trans (index_lt_of_superclass? found) before
  · have same : (table.register cls).superclass? table.nextId = cls.superclass := by
      rw [superclass?, get_register_nextId]
      cases declared : cls.superclass with
      | none => rfl
      | some id => exact Option.filter_eq_some_iff.mpr ⟨rfl, decide_eq_true (above id declared)⟩
    rw [same, get_register_nextId, map_get_register table cls above]
    exact here

namespace Laid

variable {table after : ClassTable} (laid : table.Laid)

include laid

theorem named : Named table := fun name id found => (laid.names name id found).1

/-- What programs change is no part of the layout. -/
theorem of_fixed (size : after.size = table.size) (found : ∀ name, after.find? name = table.find? name)
    (fixed : ∀ id, (after.get id).fixed = (table.get id).fixed) : after.Laid := by
  have has {id : ClassId} : after.Has id ↔ table.Has id := by rw [Has, Has, size]
  have view {α : Type} (read : Class → α) (blind : ∀ cls : Class, read cls.fixed = read cls)
      (id : ClassId) : read (after.get id) = read (table.get id) :=
    Class.view_of_fixed read blind (fixed id)
  have own := view Class.id fun _ => rfl
  have name := view Class.name fun _ => rfl
  have array := view Class.isArray fun _ => rfl
  have sort := view Class.isAbstract fun _ => rfl
  have layout := view Class.layout fun _ => rfl
  have width := view Class.ownSlots fun _ => rfl
  have superclass (id : ClassId) : after.superclass? id = table.superclass? id := by
    rw [superclass?, superclass?, view Class.superclass fun _ => rfl]
  have below (above : Option ClassId) :
      Layout.below (above.map after.get) = Layout.below (above.map table.get) := by
    cases above with
    | none => rfl
    | some id => exact layout id
  refine ⟨fun id known => ?_, fun text id held => ?_, fun id known => ?_, fun id known => ?_⟩
  · rw [own]
    exact laid.own id (has.mp known)
  · rw [found] at held
    rw [has, name]
    exact laid.names text id held
  · rw [array, name, sort]
    exact laid.arrays id (has.mp known)
  · have slots : (after.get id).instanceSlots = (table.get id).instanceSlots :=
      congrArg Layout.instanceSlots (layout id)
    rw [superclass, Class.LaidOn, below, width, slots, layout]
    exact laid.slots id (has.mp known)

/-- A class is registered on the one that it is laid on. -/
theorem register {cls : Class} (own : cls.id = table.nextId)
    (arrays : cls.isArray = true → ArrayName.isArrayName cls.name = true ∧ cls.isAbstract = true)
    (above : ∀ id, cls.superclass = some id → table.Has id)
    (slots : cls.LaidOn (cls.superclass.map table.get)) : (table.register cls).Laid where
  own := forall_register (fun id cls => cls.id = id) laid.own own
  names := names_register laid.names
  arrays := forall_register (fun _ cls => cls.isArray = true →
    ArrayName.isArrayName cls.name = true ∧ cls.isAbstract = true) laid.arrays arrays
  slots _ known := stacked_register (fun above cls => cls.LaidOn above) laid.slots above slots known

end Laid

end ClassTable

/-! ## Linking -/

theorem ClassFile.Above.superclass_eq {table : ClassTable} (laid : table.Laid) {file : ClassFile}
    {superclass : Option ClassId} {interfaces : List ClassId}
    (above : file.Above table superclass interfaces) {id : ClassId} {cls : Class}
    (links : Links id file (superclass.map table.get) interfaces cls) :
    cls.superclass = superclass := by
  rw [links.superclass]
  cases found : superclass with
  | none => rfl
  | some id => exact congrArg some (laid.own id (above.has laid.named found))

theorem Linking.Joins.laid {source : ClassFile → Prop} {before after : ClassTable}
    (joins : Joins source before after) (laid : before.Laid) : after.Laid := by
  cases joins with
  | @file file superclass interfaces cls provided unnamed above linked =>
      have links := links_of_link linked
      have same := above.superclass_eq laid links
      refine laid.register links.id (fun array => ?_) (fun id found => ?_) ?_
      · rw [Class.isArray, links.array] at array
        cases array
      · exact above.has laid.named (same.symm.trans found)
      · rw [same]
        exact Class.laidOn_of_link linked
  | array array made root =>
      refine laid.register rfl (fun _ => ⟨array, ?_⟩) ?_ (Class.laidOn_ofArray _ _ _ _ _ _ _)
      · simp only [Class.isAbstract, Class.ofArray]
        decide
      · rintro _ ⟨⟩
        exact laid.named _ _ root

theorem Linking.Extends.laid {path : ClassPath} {linking : List String}
    {before after : ClassTable} (extended : Extends path.Provides linking before after)
    (laid : before.Laid) : after.Laid := by
  induction extended with
  | refl => exact laid
  | tail _ registers ih =>
      have joins : Joins (path.Offers fun _ => False) _ _ := registers.joins
      exact joins.laid ih

namespace Registry

variable {registry : Registry}

theorem laid_answer (laid : registry.Laid) (request : Request)
    (accepted : request.Accepted (fun _ => True) registry.toClassTable) :
    (registry.answer request).2.Laid :=
  answer_induct accepted laid.named (fun joins => joins.laid) laid

theorem laid_load (laid : registry.Laid) (name : String) : (registry.load name).2.Laid :=
  laid_answer laid (.load name) trivial

theorem laid_defineClass (laid : registry.Laid) (bytes : Array UInt8) :
    (registry.defineClass bytes).2.Laid :=
  laid_answer laid (.define bytes) fun _ _ => trivial

theorem laid_arrayOf (laid : registry.Laid) (component : ClassId) :
    (registry.arrayOf component).2.Laid :=
  laid_load laid _

end Registry

/-! ## Slots along the chain -/

namespace ClassTable

/-- Slots that the instance fields take of a class and of those above it. -/
def chainSlots (table : ClassTable) (id : ClassId) : Nat :=
  ((table.superChain id).map fun above => (table.get above).ownSlots).sum

/-- References are held in slots of an instance, unless there are more than slot numbers. -/
theorem Laid.tight {table : ClassTable} (laid : table.Laid) {id : ClassId} (known : table.Has id)
    (room : table.chainSlots id < UInt16.size) :
    (table.get id).instanceSlots.toNat ≤ table.chainSlots id ∧ (table.get id).layout.Tight := by
  have slots := laid.slots id known
  rw [chainSlots] at room ⊢
  induction id using superChain.induct table with
  | case1 id top =>
      rw [superChain, top] at room ⊢
      rw [top] at slots
      simp only [List.map_cons, List.map_nil, List.sum_cons, List.sum_nil] at room ⊢
      obtain ⟨bound, tight⟩ := slots (by simpa [Layout.below] using room)
      exact ⟨by simpa [Layout.below] using bound, tight fun _ none => absurd none List.not_mem_nil⟩
  | case2 id above found ih =>
      rw [superChain, found] at room ⊢
      rw [found] at slots
      simp only [List.map_cons, List.sum_cons] at room ⊢
      have inside : table.Has above := Nat.lt_trans (index_lt_of_superclass? found) known
      obtain ⟨fewer, below⟩ := ih inside (by omega) (laid.slots above inside)
      have start : (Layout.below (some (table.get above))).instanceSlots.toNat =
        (table.get above).instanceSlots.toNat := rfl
      obtain ⟨bound, tight⟩ := slots (by rw [Option.map_some, start]; omega)
      rw [Option.map_some, start] at bound
      exact ⟨by omega, tight below⟩

end ClassTable

end Jvm
