import Mathlib.Algebra.GroupWithZero.Nat
import Jvm.Proofs.Effects
import Jvm.Slots.Fields
import Jvm.Registry.Layout

/-!
# Fields that tile a block

Fields are placed one behind the other: each begins where the one before it ends. So no two of
them share a slot, a value that is written to one is read back from it and from no other, and
the slots that are noted for references are those of the reference fields. There are two blocks,
one for instances and one for static fields, and the fields of each are placed as if there were
no others. All this as long as slot numbers suffice.
-/

namespace Jvm

/-! ## Tiles -/

/-- Whether fields fill the slots from a first to a last one, each beginning where the one
before it ends. -/
def Tiles (start : Nat) : List Field → Nat → Prop
  | [], finish => start = finish
  | field :: rest, finish => field.slot.toNat = start ∧ Tiles (start + field.kind.slots) rest finish

/-- Slots that fields take. -/
def slotsOf (fields : List Field) : Nat := (fields.map fun field => field.kind.slots).sum

/-- Slots of the fields that hold references. -/
def refSlotsOf (fields : List Field) : List UInt16 :=
  (fields.filter fun field => field.kind.isReference).map (·.slot)

theorem slotsOf_cons (field : Field) (fields : List Field) :
    slotsOf (field :: fields) = field.kind.slots + slotsOf fields := by
  rw [slotsOf, List.map_cons, List.sum_cons, slotsOf]

theorem slotsOf_le (fields : List Field) : slotsOf fields ≤ 2 * fields.length := by
  induction fields with
  | nil => exact Nat.le_refl 0
  | cons field rest ih =>
      have few : field.kind.slots ≤ 2 := by cases field.kind <;> decide
      rw [slotsOf_cons, List.length_cons]
      omega

theorem slotsOf_append (fields others : List Field) :
    slotsOf (fields ++ others) = slotsOf fields + slotsOf others := by
  rw [slotsOf, List.map_append, List.sum_append, slotsOf, slotsOf]

theorem refSlotsOf_append (fields others : List Field) :
    refSlotsOf (fields ++ others) = refSlotsOf fields ++ refSlotsOf others := by
  rw [refSlotsOf, List.filter_append, List.map_append, refSlotsOf, refSlotsOf]

namespace Tiles

variable {start middle finish : Nat} {fields others : List Field}

theorem append (left : Tiles start fields middle) (right : Tiles middle others finish) :
    Tiles start (fields ++ others) finish := by
  induction fields generalizing start with
  | nil => exact left ▸ right
  | cons field rest ih => exact ⟨left.1, ih left.2⟩

theorem finish_eq (tiles : Tiles start fields finish) : finish = start + slotsOf fields := by
  induction fields generalizing start with
  | nil => exact tiles.symm
  | cons field rest ih =>
      rw [ih tiles.2, slotsOf_cons, Nat.add_assoc]

theorem inside (tiles : Tiles start fields finish) {field : Field} (member : field ∈ fields) :
    start ≤ field.slot.toNat ∧ field.slot.toNat + field.kind.slots ≤ finish := by
  induction fields generalizing start with
  | nil => cases member
  | cons first rest ih =>
      rcases List.mem_cons.mp member with rfl | later
      · have last := tiles.2.finish_eq
        have here := tiles.1
        omega
      · have further := ih tiles.2 later
        omega

/-- Each field ends before those behind it begin. -/
theorem pairwise (tiles : Tiles start fields finish) :
    fields.Pairwise fun first second =>
      first.slot.toNat + first.kind.slots ≤ second.slot.toNat := by
  induction fields generalizing start with
  | nil => exact .nil
  | cons first rest ih =>
      refine List.pairwise_cons.mpr ⟨fun second later => ?_, ih tiles.2⟩
      rw [tiles.1]
      exact (tiles.2.inside later).1

end Tiles

/-- Whether fields have a block of slots to themselves: they take all of it, each has slots of
its own inside it, and the slots noted for references are those of the reference fields. -/
structure Block (fields : List Field) (size : Nat) (refs : List UInt16) : Prop where
  filled : size = slotsOf fields
  inside : ∀ field ∈ fields, field.slot.toNat + field.kind.slots ≤ size
  apart : fields.Pairwise fun first second =>
    first.slot.toNat + first.kind.slots ≤ second.slot.toNat
  noted : refs = refSlotsOf fields

theorem Tiles.block {fields : List Field} {size : Nat} {refs : List UInt16}
    (tiles : Tiles 0 fields size) (noted : refs = refSlotsOf fields) : Block fields size refs where
  filled := tiles.finish_eq.trans (Nat.zero_add _)
  inside _ member := (tiles.inside member).2
  apart := tiles.pairwise
  noted := noted

/-- Whether a value that is written to one of some fields is read back from it, and the others
read as before. -/
def Separates (fields : List Field) (size : Nat) : Prop :=
  ∀ (data : Fields) (index : Nat) (field : Field) (value : Value), data.size = size →
    fields[index]? = some field → value.fits field.kind = true →
      (data.write field.slot.toNat value).read field.slot.toNat field.kind = value ∧
      ∀ (place : Nat) (other : Field), place ≠ index → fields[place]? = some other →
        (data.write field.slot.toNat value).read other.slot.toNat other.kind =
          data.read other.slot.toNat other.kind

theorem Block.separates {fields : List Field} {size : Nat} {refs : List UInt16}
    (block : Block fields size refs) : Separates fields size := by
  intro data index field value sized found fit
  have inside := block.inside field (List.mem_of_getElem? found)
  refine ⟨Fields.read_write fit (sized ▸ inside), fun place other differs held => ?_⟩
  have width := Value.slots_eq_of_fits fit
  obtain ⟨here, rfl⟩ := List.getElem?_eq_some_iff.mp found
  obtain ⟨there, rfl⟩ := List.getElem?_eq_some_iff.mp held
  have order := List.pairwise_iff_getElem.mp block.apart
  apply Fields.read_write_of_apart
  rw [width]
  rcases Nat.lt_or_gt_of_ne differs with before | behind
  · exact .inl (order place index there here before)
  · exact .inr (order index place here there behind)

/-! ## Placing fields -/

namespace Layout

/-- The next free slot of a block, that of static fields or that of instance fields. -/
def next (layout : Layout) (static : Bool) : UInt16 :=
  if static then layout.staticSlots else layout.instanceSlots

/-- The slots of the block that hold references so far. -/
def refs (layout : Layout) (static : Bool) : List UInt16 :=
  if static then layout.staticRefSlots else layout.refSlots

variable {before after : Layout}

/-- A field is placed at the next free slot of its block. -/
theorem next_of_place {info : FieldInfo} {field : Field}
    (placed : before.place info = .ok (field, after)) :
    field.slot = before.next field.isStatic ∧
      after.next field.isStatic = field.slot + UInt16.ofNat field.kind.slots ∧
      after.refs field.isStatic = before.refs field.isStatic ++ refSlotsOf [field] := by
  have noteRef_eq (kind : Kind) (slot : UInt16) (slots : List UInt16) :
      noteRef kind slot slots = slots ++ if kind.isReference then [slot] else [] := by
    rw [noteRef]
    split <;> simp
  unfold place at placed
  split at placed
  next => cases placed
  next kind _ =>
      dsimp only at placed
      split at placed
      all_goals
        next sort =>
            cases placed
            simp only [Field.isStatic, next, refs, sort, if_true, Bool.false_eq_true, if_false,
              refSlotsOf, List.filter_cons, List.filter_nil, noteRef_eq, true_and]
            split <;> rfl

theorem kind_of_place {info : FieldInfo} {field : Field}
    (placed : before.place info = .ok (field, after)) :
    Kind.ofDescriptor info.descriptor = some field.kind := by
  unfold place at placed
  split at placed
  next => cases placed
  next kind found =>
      dsimp only at placed
      split at placed <;> cases placed <;> exact found

/-- The other block is left alone. -/
theorem next_of_place_other {info : FieldInfo} {field : Field} {static : Bool}
    (placed : before.place info = .ok (field, after)) (other : field.isStatic ≠ static) :
    after.next static = before.next static ∧ after.refs static = before.refs static := by
  unfold place at placed
  split at placed
  next => cases placed
  next kind _ =>
      dsimp only at placed
      split at placed
      next isStatic =>
          cases placed
          cases static with
          | true => exact absurd isStatic other
          | false => exact ⟨rfl, rfl⟩
      next isInstance =>
          cases placed
          cases static with
          | true => exact ⟨rfl, rfl⟩
          | false => exact absurd (Bool.eq_false_iff.mpr isInstance) other

/-- The fields of a block, placed one by one, tile it from where they begin. -/
theorem tiles_of_placeAll {infos : List FieldInfo} {fields : List Field} (static : Bool)
    (placed : before.placeAll infos = .ok (fields, after))
    (room : (before.next static).toNat +
      slotsOf (fields.filter fun field => field.isStatic == static) < UInt16.size) :
    Tiles (before.next static).toNat (fields.filter fun field => field.isStatic == static)
        (after.next static).toNat ∧
      after.refs static = before.refs static ++
        refSlotsOf (fields.filter fun field => field.isStatic == static) := by
  induction infos generalizing before fields with
  | nil =>
      cases placed
      exact ⟨rfl, (List.append_nil _).symm⟩
  | cons info rest ih =>
      simp only [placeAll, Except.bind_eq_ok, pure, Except.pure, Except.ok.injEq] at placed
      obtain ⟨⟨field, between⟩, first, ⟨others, last⟩, second, same⟩ := placed
      cases same
      dsimp only at second room ⊢
      by_cases sort : field.isStatic = static
      · subst sort
        obtain ⟨here, next, noted⟩ := next_of_place first
        rw [List.filter_cons, if_pos (beq_self_eq_true _)] at room ⊢
        rw [slotsOf_cons, ← Nat.add_assoc] at room
        have width : (UInt16.ofNat field.kind.slots).toNat = field.kind.slots := by
          cases field.kind <;> rfl
        have slots : (between.next field.isStatic).toNat =
            (before.next field.isStatic).toNat + field.kind.slots := by
          rw [next, here, UInt16.toNat_add, width,
            Nat.mod_eq_of_lt (Nat.lt_of_le_of_lt (Nat.le_add_right _ _) room)]
        obtain ⟨tiles, refs⟩ := ih second (slots ▸ room)
        rw [slots] at tiles
        refine ⟨⟨congrArg UInt16.toNat here, tiles⟩, ?_⟩
        rw [refs, noted, List.append_assoc, ← refSlotsOf_append]
        rfl
      · obtain ⟨next, noted⟩ := next_of_place_other first sort
        rw [List.filter_cons, if_neg (by simpa using sort)] at room ⊢
        rw [← next] at room ⊢
        rw [← noted]
        exact ih second room

end Layout

end Jvm
