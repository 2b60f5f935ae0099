import Jvm.Proofs.Registry.Laying
import Jvm.Proofs.Registry.Members
import Jvm.Proofs.Registry.Reaching

/-!
# Places of fields

The instance fields of a class tile one block, the inherited ones first and where the superclass
has them; the static fields tile another. This holds as long as slot numbers suffice and no array
class on the superclass chain has fields to inherit: an array has elements in place of fields, so
that a class below it is placed as if there were none above it.
-/

namespace Jvm

open ClassTable Linking

/-! ## Classes -/

namespace Class

/-- Fields of instances that a class declares itself. -/
def instanceFields (cls : Class) : List Field := cls.fields.filter fun field => field.isStatic == false

/-- Fields of the class itself. -/
def staticFields (cls : Class) : List Field := cls.fields.filter fun field => field.isStatic == true

/-- Whether the fields of a class are placed behind those of its superclass. An array class has
none, and no slots. -/
inductive PlacedOn (cls : Class) (above : Option Class) : Prop
  | linked {infos : List FieldInfo}
      (placed : (Layout.below above).placeAll infos = .ok (cls.fields, cls.slots))
  | array (array : cls.isArray = true) (fields : cls.fields = []) (slots : cls.slots = {})

theorem placedOn_of_link {id : ClassId} {file : ClassFile} {superclass : Option Class}
    {interfaces : List ClassId} {cls : Class}
    (linked : Class.link id file superclass interfaces = .ok cls) : cls.PlacedOn superclass :=
  .linked (placeAll_of_link linked)

theorem placedOn_ofArray (id : ClassId) (name : String) (element : Kind)
    (component : Option ClassId) (superclass : ClassId) (interfaces : List ClassId)
    (above : Option Class) :
    (Class.ofArray id name element component superclass interfaces).PlacedOn above :=
  .array rfl rfl rfl

/-- Static fields tile a block of their own. -/
theorem PlacedOn.statics {cls : Class} {above : Option Class} (placed : cls.PlacedOn above)
    (room : slotsOf cls.staticFields < UInt16.size) :
    Block cls.staticFields cls.staticSlots.toNat cls.staticRefSlots := by
  cases placed with
  | linked placed =>
      have start : ((Layout.below above).next true).toNat = 0 := by cases above <;> rfl
      have none : (Layout.below above).refs true = [] := by cases above <;> rfl
      obtain ⟨tiles, noted⟩ := Layout.tiles_of_placeAll true placed (by rwa [start, Nat.zero_add])
      rw [start] at tiles
      rw [none] at noted
      exact tiles.block noted
  | array array fields slots =>
      have empty : cls.staticFields = [] := by rw [staticFields, fields, List.filter_nil]
      have none : cls.staticSlots = 0 := congrArg Layout.staticSlots slots
      have noted : cls.staticRefSlots = [] := congrArg Layout.staticRefSlots slots
      rw [empty, none, noted]
      exact Tiles.block rfl rfl

/-- Instance fields tile the block of the superclass further, but an array class must have
none to inherit. -/
theorem PlacedOn.instances {cls : Class} {above : Option Class} (placed : cls.PlacedOn above)
    {inherited : List Field}
    (tiles : Tiles 0 inherited (Layout.below above).instanceSlots.toNat)
    (noted : (Layout.below above).refSlots = refSlotsOf inherited)
    (plain : cls.isArray = true → inherited = [])
    (room : slotsOf (inherited ++ cls.instanceFields) < UInt16.size) :
    Tiles 0 (inherited ++ cls.instanceFields) cls.instanceSlots.toNat ∧
      cls.refSlots = refSlotsOf (inherited ++ cls.instanceFields) := by
  cases placed with
  | linked placed =>
      have start := tiles.finish_eq
      rw [slotsOf_append] at room
      obtain ⟨further, more⟩ := Layout.tiles_of_placeAll false placed (by
        rw [Nat.zero_add] at start
        rwa [Layout.next, if_neg Bool.false_ne_true, start])
      refine ⟨tiles.append further, ?_⟩
      rw [refSlotsOf_append, ← noted]
      exact more
  | array array fields slots =>
      have empty : cls.instanceFields = [] := by rw [instanceFields, fields, List.filter_nil]
      have none : cls.instanceSlots = 0 := congrArg Layout.instanceSlots slots
      have unnoted : cls.refSlots = [] := congrArg Layout.refSlots slots
      rw [plain array, empty, none, unnoted]
      exact ⟨rfl, rfl⟩

end Class

/-! ## Tables -/

namespace ClassTable

/-- Whether the fields of all classes are placed behind those of their superclasses, which are
linked before them. -/
structure Placed (table : ClassTable) : Prop where
  laid : table.Laid
  superclass : ∀ id, table.Has id →
    (table.get id).superclass = ((table.superclass? id).map table.get).map (·.id)
  fields : ∀ id, table.Has id → (table.get id).PlacedOn ((table.superclass? id).map table.get)

theorem Placed.empty : Placed {} where
  laid := .empty
  superclass _ known := absurd known (Nat.not_lt_zero _)
  fields _ known := absurd known (Nat.not_lt_zero _)

theorem Placed.superclass?_eq {table : ClassTable} (placed : table.Placed) {id : ClassId}
    (known : table.Has id) : table.superclass? id = (table.get id).superclass := by
  rw [placed.superclass id known]
  cases found : table.superclass? id with
  | none => rfl
  | some above =>
      have inside : table.Has above := Nat.lt_trans (index_lt_of_superclass? found) known
      exact congrArg some (placed.laid.own above inside).symm

/-- Fields of instances, those of the topmost superclass first. -/
def instanceFields (table : ClassTable) (id : ClassId) : List Field :=
  (table.superChain id).reverse.flatMap fun above => (table.get above).instanceFields

/-- The fields of a class come behind those of its superclass. -/
theorem instanceFields_eq_append (table : ClassTable) (id : ClassId) :
    table.instanceFields id =
      (table.superclass? id).elim [] table.instanceFields ++ (table.get id).instanceFields := by
  rw [instanceFields, superChain]
  split
  next top => simp [top]
  next above found => simp [found, instanceFields]

/-- Along a superclass chain the fields tile one block. -/
theorem Placed.tiles {table : ClassTable} (placed : table.Placed) {id : ClassId}
    (known : table.Has id)
    (plain : ∀ above ∈ table.superChain id, (table.get above).isArray = true →
      table.instanceFields above = [])
    (room : slotsOf (table.instanceFields id) < UInt16.size) :
    Tiles 0 (table.instanceFields id) (table.get id).instanceSlots.toNat ∧
      (table.get id).refSlots = refSlotsOf (table.instanceFields id) := by
  induction id using superChain.induct table with
  | case1 id top =>
      have fields := placed.fields id known
      have own := plain id (table.mem_superChain_self id)
      rw [instanceFields_eq_append, top] at room own ⊢
      rw [top] at fields
      exact fields.instances rfl rfl (fun array => (List.append_eq_nil_iff.mp (own array)).1) room
  | case2 id above found ih =>
      have fields := placed.fields id known
      have own := plain id (table.mem_superChain_self id)
      have inside : table.Has above := Nat.lt_trans (index_lt_of_superclass? found) known
      rw [instanceFields_eq_append, found] at room own ⊢
      rw [found] at fields
      have fewer := room
      rw [Option.elim_some, slotsOf_append] at fewer
      obtain ⟨tiles, noted⟩ := ih inside
        (fun upper member => plain upper (by rw [superChain, found]; exact .tail _ member))
        (Nat.lt_of_le_of_lt (Nat.le_add_right _ _) fewer)
      exact fields.instances tiles noted
        (fun array => (List.append_eq_nil_iff.mp (own array)).1) room

end ClassTable

theorem Linking.Joins.placed {source : ClassFile → Prop} {before after : ClassTable}
    (joins : Joins source before after) (placed : before.Placed) : after.Placed := by
  have laid := placed.laid
  have after := joins.laid laid
  cases joins with
  | @file file superclass interfaces cls provided unnamed above linked =>
      have same := above.superclass_eq laid (links_of_link linked)
      have inside (id : ClassId) (found : cls.superclass = some id) : before.Has id :=
        above.has laid.named (same.symm.trans found)
      refine ⟨after, fun id => stacked_register (fun above cls => cls.superclass = above.map (·.id))
        placed.superclass inside ?_, fun id => stacked_register (fun above cls => cls.PlacedOn above)
        placed.fields inside ?_⟩
      · rw [same]
        exact (links_of_link linked).superclass.symm ▸ same.symm
      · rw [same]
        exact Class.placedOn_of_link linked
  | @array name kind component object cloneable serializable array made root =>
      have known := laid.named _ _ root
      have inside (id : ClassId) (found : some object = some id) : before.Has id :=
        Option.some.inj found ▸ known
      refine ⟨after, fun id => stacked_register (fun above cls => cls.superclass = above.map (·.id))
        placed.superclass inside ?_, fun id => stacked_register (fun above cls => cls.PlacedOn above)
        placed.fields inside (Class.placedOn_ofArray ..)⟩
      exact congrArg some (laid.own object known).symm

namespace Registry

variable {path : ClassPath} {registry : Registry}

theorem Serves.placed (serves : registry.Serves (fun _ => True) path) : registry.Placed := by
  induction serves with
  | refl => exact .empty
  | tail _ step ih =>
      obtain ⟨request, accepted, rfl⟩ := step
      exact answer_induct accepted ih.laid.named (fun joins => joins.placed) ih

/-- As long as slot numbers suffice and no array class on the superclass chain has fields to
inherit, the instance fields of a linked class, those of its superclasses included, have a block
of slots to themselves, which continues that of the superclass; so have its static fields; and
what is written to one field of a block is read back from it and leaves the others as they
were. -/
theorem fields_apart (serves : registry.Serves (fun _ => True) path) {id : ClassId}
    (known : registry.Has id)
    (plain : ∀ above ∈ registry.superChain id, (registry.get above).isArray = true →
      registry.instanceFields above = [])
    (room : slotsOf (registry.instanceFields id) < UInt16.size)
    (staticRoom : slotsOf (registry.get id).staticFields < UInt16.size) :
    (Block (registry.instanceFields id) (registry.get id).instanceSlots.toNat
        (registry.get id).refSlots ∧
      Block (registry.get id).staticFields (registry.get id).staticSlots.toNat
        (registry.get id).staticRefSlots) ∧
    (∀ above, (registry.get id).superclass = some above →
      registry.instanceFields id =
          registry.instanceFields above ++ (registry.get id).instanceFields ∧
        Block (registry.instanceFields above) (registry.get above).instanceSlots.toNat
          (registry.get above).refSlots) ∧
    Separates (registry.instanceFields id) (registry.get id).instanceSlots.toNat ∧
    Separates (registry.get id).staticFields (registry.get id).staticSlots.toNat := by
  have placed := serves.placed
  have block {id : ClassId} (known : registry.Has id)
      (plain : ∀ above ∈ registry.superChain id, (registry.get above).isArray = true →
        registry.instanceFields above = [])
      (room : slotsOf (registry.instanceFields id) < UInt16.size) :
      Block (registry.instanceFields id) (registry.get id).instanceSlots.toNat
        (registry.get id).refSlots := by
    obtain ⟨tiles, noted⟩ := placed.tiles known plain room
    exact tiles.block noted
  have instances := block known plain room
  have statics := (placed.fields id known).statics staticRoom
  refine ⟨⟨instances, statics⟩, fun above declared => ?_, instances.separates, statics.separates⟩
  have found : registry.superclass? id = some above :=
    (placed.superclass?_eq known).trans declared
  have split := registry.instanceFields_eq_append id
  rw [found, Option.elim_some] at split
  rw [split, slotsOf_append] at room
  have chain : registry.superChain id = id :: registry.superChain above := by
    rw [superChain, found]
  exact ⟨split, block (Nat.lt_trans (index_lt_of_superclass? found) known)
    (fun upper member => plain upper (chain ▸ .tail _ member))
    (Nat.lt_of_le_of_lt (Nat.le_add_right _ _) room)⟩

/-- A class has no more fields of a sort than its outline has fields. -/
theorem length_filter_fields_le {outline : ClassFile.Outline} {id : ClassId} {above : Option Class}
    {interfaces : List ClassId} {cls : Class} (links : outline.Links id above interfaces cls)
    (sort : Field → Bool) : (cls.fields.filter sort).length ≤ outline.fields.length := by
  rw [← links.fields, Class.fieldSignatures, List.length_map]
  exact List.length_filter_le sort cls.fields

/-- A class whose only field is one of instances has it behind those of its superclass. -/
theorem exists_instanceField {outline : ClassFile.Outline} {id : ClassId} {above : Option Class}
    {interfaces : List ClassId} {cls : Class} (links : outline.Links id above interfaces cls)
    {signature : Signature} (only : outline.fields = [signature])
    (sort : Access.has signature.flags Access.isStatic = false) {kind : Kind}
    (described : Kind.ofDescriptor signature.descriptor = some kind) :
    ∃ field, cls.instanceFields = [field] ∧ cls.staticFields = [] ∧ field.kind = kind ∧
      field.slot = (Layout.below above).instanceSlots := by
  obtain ⟨infos, same, placed⟩ := links.exists_placeAll
  rw [only] at same
  obtain ⟨info, rfl, rfl⟩ := List.map_eq_singleton_iff.mp same
  simp only [Layout.placeAll, Except.bind_eq_ok, pure, Except.pure, Except.ok.injEq] at placed
  obtain ⟨⟨field, between⟩, first, _, rfl, same⟩ := placed
  have fields : cls.fields = [field] := (congrArg Prod.fst same).symm
  have own : Signature.ofField field = Signature.ofFieldInfo info := Layout.signature_of_place first
  have static : field.isStatic = false := by
    rw [Field.isStatic, show field.flags = info.flags from congrArg Signature.flags own]
    exact sort
  obtain ⟨slot, -⟩ := Layout.next_of_place first
  refine ⟨field, ?_, ?_, ?_, ?_⟩
  · simp [Class.instanceFields, fields, static]
  · simp [Class.staticFields, fields, static]
  · exact Option.some.inj ((Layout.kind_of_place first).symm.trans described)
  · rw [slot, static]
    rfl

/-- A root with a field. -/
def fieldedRoot : ClassFile.Outline :=
  { ClassFile.Outline.root with fields := [⟨Access.isPublic, "x", "I"⟩] }

/-- An interface without members. -/
def markerOutline (name : String) : ClassFile.Outline where
  flags := 0x601
  name

/-- A class directly below the root, with a field of the same name, a reference and a static
field. -/
def lowerFields : ClassFile.Outline where
  flags := 0x21
  name := "demo/P"
  fields := [⟨Access.isPublic, "x", "J"⟩, ⟨Access.isStatic, "n", "I"⟩,
    ⟨Access.isPublic, "next", "Ldemo/P;"⟩]

/-- A class below an array class. -/
def belowArray : ClassFile.Outline where
  flags := 0x21
  name := "demo/X"
  superclass := some "[I"
  fields := [⟨Access.isPublic, "y", "I"⟩]

/-- A registry with these classes. -/
def fielded : Registry :=
  (((ofFiles [fieldedRoot.bytes [], (markerOutline cloneableName).bytes [],
    (markerOutline serializableName).bytes [], lowerFields.bytes []]).answer
      (.load "[I")).2.answer (.define (belowArray.bytes []))).2

theorem serves_fielded : fielded.Serves (fun _ => True) {} :=
  ((serves_ofFiles _).tail ⟨.load "[I", trivial, rfl⟩).tail
    ⟨.define (belowArray.bytes []), fun _ _ => trivial, rfl⟩

theorem exists_fielded : ∃ root cloneable serializable lower last : Class,
    fielded.Holds [objectName, cloneableName, serializableName, "demo/P", "[I", "demo/X"]
        [root, cloneable, serializable, lower,
          Class.ofArray ⟨4⟩ "[I" .int none ⟨0⟩ [⟨1⟩, ⟨2⟩], last] ∧
      fieldedRoot.Links ⟨0⟩ none [] root ∧ lowerFields.Links ⟨3⟩ (some root) [] lower ∧
      belowArray.Links ⟨5⟩ (some (Class.ofArray ⟨4⟩ "[I" .int none ⟨0⟩ [⟨1⟩, ⟨2⟩])) [] last := by
  obtain ⟨root, top, first⟩ := (holds_ofPath {}).define fieldedRoot [] none [] (by decide +kernel)
    (by decide +kernel) List.not_mem_nil ⟨rfl, .nil⟩
  have object := first.knows 0 objectName rfl top.flags
  obtain ⟨cloneable, one, second⟩ := first.define (markerOutline cloneableName) [] (some ⟨0⟩) []
    (by decide +kernel) (by decide +kernel) (by decide) ⟨object, .nil⟩
  have object := second.knows 0 objectName rfl top.flags
  obtain ⟨serializable, two, third⟩ := second.define (markerOutline serializableName) []
    (some ⟨0⟩) [] (by decide +kernel) (by decide +kernel) (by decide) ⟨object, .nil⟩
  have object := third.knows 0 objectName rfl top.flags
  obtain ⟨lower, three, fourth⟩ := third.define lowerFields [] (some ⟨0⟩) [] (by decide +kernel)
    (by decide +kernel) (by decide) ⟨object, .nil⟩
  have roots : HasRoots _ ⟨0⟩ ⟨1⟩ ⟨2⟩ :=
    ⟨fourth.knows 0 objectName rfl top.flags, fourth.knows 1 cloneableName rfl one.flags,
      fourth.knows 2 serializableName rfl two.flags⟩
  have next : ClassTable.nextId _ = ⟨4⟩ := congrArg ClassId.mk fourth.size
  have fifth := fourth.adds (adds_array rfl (fourth.names "[I") (.primitive rfl) roots) (by decide)
  rw [next] at fifth
  have sort := fifth.knows 4 "[I" rfl
    (rfl : (Class.ofArray ⟨4⟩ "[I" .int none ⟨0⟩ [⟨1⟩, ⟨2⟩]).flags =
      Access.isPublic ||| Access.isFinal ||| Access.isAbstract)
  obtain ⟨last, five, sixth⟩ := fifth.define belowArray [] (some ⟨4⟩) [] (by decide +kernel)
    (by decide +kernel) (by decide) ⟨sort, .nil⟩
  rw [Option.map_some, third.get] at three
  rw [Option.map_some, fifth.get] at five
  exact ⟨root, cloneable, serializable, lower, last, sixth, top, three, five⟩

/-- The array class has no room for the field of the root, and the class below it has its own
field there. -/
theorem fields_fielded : ∃ x y : Field, x.kind = .int ∧ x.slot = 0 ∧ y.kind = .int ∧ y.slot = 0 ∧
    fielded.instanceFields ⟨4⟩ = [x] ∧ (fielded.get ⟨4⟩).instanceSlots = 0 ∧
    fielded.instanceFields ⟨5⟩ = [x, y] ∧ (fielded.get ⟨5⟩).staticFields = [] := by
  obtain ⟨root, cloneable, serializable, lower, last, holds, top, three, five⟩ := exists_fielded
  have placed := serves_fielded.placed
  have first : fielded.get ⟨0⟩ = root := holds.get 0
  have fifth : fielded.get ⟨4⟩ = Class.ofArray ⟨4⟩ "[I" .int none ⟨0⟩ [⟨1⟩, ⟨2⟩] := holds.get 4
  have sixth : fielded.get ⟨5⟩ = last := holds.get 5
  have known (id : ClassId) (few : id.index < 6) : fielded.Has id := holds.has_iff.mpr few
  generalize fielded = registry at *
  obtain ⟨x, rootFields, -, int, zero⟩ := exists_instanceField top rfl rfl rfl
  obtain ⟨y, lastFields, statics, int', zero'⟩ := exists_instanceField five rfl rfl rfl
  have bottom : registry.superclass? ⟨0⟩ = none := by
    rw [placed.superclass?_eq (known _ (by decide)), first, top.superclass_eq]
    rfl
  have up : registry.superclass? ⟨4⟩ = some ⟨0⟩ := by
    rw [placed.superclass?_eq (known _ (by decide)), fifth]
    rfl
  have up' : registry.superclass? ⟨5⟩ = some ⟨4⟩ := by
    rw [placed.superclass?_eq (known _ (by decide)), sixth, five.superclass_eq]
    rfl
  have zeroth : registry.instanceFields ⟨0⟩ = [x] := by
    rw [instanceFields_eq_append, bottom, first, rootFields]
    rfl
  have fourth : registry.instanceFields ⟨4⟩ = [x] := by
    rw [instanceFields_eq_append, up, Option.elim_some, zeroth, fifth]
    rfl
  refine ⟨x, y, int, zero, int', zero', fourth, ?_, ?_, sixth ▸ statics⟩
  · rw [fifth]
    rfl
  · rw [instanceFields_eq_append, up', Option.elim_some, fourth, sixth, lastFields]
    rfl

/-- Three fields of a class and the one above them are apart. -/
theorem fields_apart_fielded :
    fielded.Serves (fun _ => True) {} ∧ fielded.Has ⟨3⟩ ∧
      (fielded.get ⟨3⟩).fieldSignatures = lowerFields.fields ∧
      (fielded.get ⟨3⟩).superclass = some ⟨0⟩ ∧
      Separates (fielded.instanceFields ⟨3⟩) (fielded.get ⟨3⟩).instanceSlots.toNat := by
  obtain ⟨root, _, _, lower, _, holds, top, three, -⟩ := exists_fielded
  have placed := serves_fielded.placed
  have served := serves_fielded
  have first : fielded.get ⟨0⟩ = root := holds.get 0
  have fourth : fielded.get ⟨3⟩ = lower := holds.get 3
  have known (id : ClassId) (few : id.index < 6) : fielded.Has id := holds.has_iff.mpr few
  generalize fielded = registry at *
  have declared : (registry.get ⟨3⟩).superclass = some ⟨0⟩ := by
    rw [fourth, three.superclass_eq, Option.map_some, top.id_eq]
  have up : registry.superclass? ⟨3⟩ = some ⟨0⟩ :=
    (placed.superclass?_eq (known _ (by decide))).trans declared
  have bottom : registry.superclass? ⟨0⟩ = none := by
    rw [placed.superclass?_eq (known _ (by decide)), first, top.superclass_eq]
    rfl
  have chain : registry.superChain ⟨3⟩ = [⟨3⟩, ⟨0⟩] := by
    rw [superChain, up]
    simp only
    rw [superChain, bottom]
  have plain : ∀ above ∈ registry.superChain ⟨3⟩, (registry.get above).isArray = true →
      registry.instanceFields above = [] := by
    rw [chain]
    rintro above (_ | ⟨_, _ | ⟨_, ⟨⟩⟩⟩) array
    · rw [fourth, Class.isArray, three.array] at array
      cases array
    · rw [first, Class.isArray, top.array] at array
      cases array
  have few : (registry.instanceFields ⟨3⟩).length ≤ 1 + 3 := by
    rw [instanceFields_eq_append, up, Option.elim_some, instanceFields_eq_append, bottom, first,
      fourth, Option.elim_none, List.nil_append, List.length_append]
    exact Nat.add_le_add (length_filter_fields_le top _) (length_filter_fields_le three _)
  have room : slotsOf (registry.instanceFields ⟨3⟩) < UInt16.size := by
    have most := slotsOf_le (registry.instanceFields ⟨3⟩)
    exact Nat.lt_of_le_of_lt (Nat.le_trans most (Nat.mul_le_mul_left 2 few)) (by decide)
  have staticRoom : slotsOf (registry.get ⟨3⟩).staticFields < UInt16.size := by
    have few : (registry.get ⟨3⟩).staticFields.length ≤ 3 :=
      fourth ▸ length_filter_fields_le three _
    have most := slotsOf_le (registry.get ⟨3⟩).staticFields
    exact Nat.lt_of_le_of_lt (Nat.le_trans most (Nat.mul_le_mul_left 2 few)) (by decide)
  have apart := fields_apart served (known _ (by decide)) plain room staticRoom
  exact ⟨served, known _ (by decide), fourth ▸ three.fields, declared, apart.2.2.1⟩

/-- So not all fields have slots to themselves: the field that an array class inherits lies
outside its instances, and a class below it has the inherited field and its own in one slot. -/
theorem fields_overlap :
    fielded.Serves (fun _ => True) {} ∧ fielded.Has ⟨4⟩ ∧ fielded.Has ⟨5⟩ ∧
      (slotsOf (fielded.instanceFields ⟨4⟩) < UInt16.size ∧
        slotsOf (fielded.instanceFields ⟨5⟩) < UInt16.size ∧
        slotsOf (fielded.get ⟨5⟩).staticFields < UInt16.size) ∧
      ¬Block (fielded.instanceFields ⟨4⟩) (fielded.get ⟨4⟩).instanceSlots.toNat
        (fielded.get ⟨4⟩).refSlots ∧
      ¬Block (fielded.instanceFields ⟨5⟩) (fielded.get ⟨5⟩).instanceSlots.toNat
        (fielded.get ⟨5⟩).refSlots ∧
      ¬Separates (fielded.instanceFields ⟨5⟩) (fielded.get ⟨5⟩).instanceSlots.toNat := by
  obtain ⟨x, y, int, zero, int', zero', array, none, last, statics⟩ := fields_fielded
  obtain ⟨_, _, _, _, _, holds, -⟩ := exists_fielded
  have together : ¬Separates (fielded.instanceFields ⟨5⟩) (fielded.get ⟨5⟩).instanceSlots.toNat := by
    intro separates
    obtain ⟨written, kept⟩ := separates (.ofSize _) 1 y (.int 1) (Fields.size_ofSize _)
      (by rw [last]; rfl) (by rw [int']; rfl)
    have read := kept 0 x (by decide) (by rw [last]; rfl)
    rw [zero', int'] at written
    rw [zero', zero, int, written] at read
    have empty (size slot : Nat) : (Fields.ofSize size).read slot .int = .int 0 :=
      congrArg (fun cell => Value.int (UInt32.toInt32 cell)) (Fields.get_ofSize size slot)
    exact absurd (read.trans (empty _ _)) (by decide)
  refine ⟨serves_fielded, holds.has_iff.mpr (by decide), holds.has_iff.mpr (by decide), ⟨?_, ?_, ?_⟩,
    fun block => ?_, fun block => together block.separates, together⟩
  · rw [array]
    exact Nat.lt_of_le_of_lt (slotsOf_le [x]) (show 2 * 1 < UInt16.size by decide)
  · rw [last]
    exact Nat.lt_of_le_of_lt (slotsOf_le [x, y]) (show 2 * 2 < UInt16.size by decide)
  · rw [statics]
    decide
  · have inside := block.inside x (array ▸ .head _)
    rw [none] at inside
    exact absurd (Nat.lt_of_lt_of_le x.kind.slots_pos (Nat.le_of_add_left_le inside)) (by decide)

end Registry

end Jvm
