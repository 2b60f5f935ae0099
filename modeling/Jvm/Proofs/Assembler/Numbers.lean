import Mathlib.Algebra.GroupWithZero.Nat
import Jvm.Assembler.Pool
import Jvm.Proofs.ClassFile.Reading
import Jvm.Proofs.Text.Encoding
import Jvm.Proofs.Registry.Naming

/-!
# Numbers of constants

While a class is assembled, a constant has the number of the slot that it takes in the
pool: one more than the slots of the constants before it. As long as there are numbers
left, the pool that is read back holds every constant in the slot of its number, and
nothing in any other slot.
-/

namespace Jvm

namespace Constant

/-- Slots that constants take. -/
def widths (items : List Constant) : Nat := (items.map width).sum

/-- Whether a constant follows so many slots of other ones in a row. -/
inductive StandsAt : List Constant → Constant → Nat → Prop
  | here {item : Constant} {items : List Constant} : StandsAt (item :: items) item 0
  | there {first item : Constant} {items : List Constant} {place : Nat}
      (later : StandsAt items item place) : StandsAt (first :: items) item (first.width + place)

/-- Whether a constant is one that a class file holds: a literal or a symbolic reference. -/
def IsWritten (item : Constant) : Prop := item.IsSymbolic ∧ item ≠ .empty

theorem width_pos (item : Constant) : 0 < item.width := by
  unfold width
  split <;> decide

theorem widths_cons (item : Constant) (items : List Constant) :
    widths (item :: items) = item.width + widths items := rfl

theorem widths_concat (items : List Constant) (last : Constant) :
    widths (items ++ [last]) = widths items + last.width := by
  simp [widths]

namespace StandsAt

variable {items : List Constant} {item last : Constant} {place : Nat}

theorem le_widths (stands : StandsAt items item place) : place + item.width ≤ widths items := by
  induction stands with
  | here =>
      rw [widths_cons]
      omega
  | there later ih =>
      rw [widths_cons]
      omega

/-- No constant starts inside another one. -/
theorem apart (stands : StandsAt items item place) {other : Constant} {index : Nat}
    (starts : StandsAt items other index) : index ≤ place ∨ place + item.width ≤ index := by
  induction stands generalizing index with
  | here =>
      cases starts with
      | here => exact .inl (Nat.le_refl 0)
      | there _ => exact .inr (by omega)
  | there later ih =>
      cases starts with
      | here => exact .inl (Nat.zero_le _)
      | there behind =>
          have := ih behind
          omega

theorem last_of (items : List Constant) (last : Constant) :
    StandsAt (items ++ [last]) last (widths items) := by
  induction items with
  | nil => exact .here
  | cons item items ih => exact .there ih

theorem append (stands : StandsAt items item place) (more : List Constant) :
    StandsAt (items ++ more) item place := by
  induction stands with
  | here => exact .here
  | there later ih => exact .there ih

/-- A constant behind others comes last or stood there before. -/
theorem concat_iff :
    StandsAt (items ++ [last]) item place ↔
      StandsAt items item place ∨ item = last ∧ place = widths items := by
  constructor
  · intro stands
    induction items generalizing place with
    | nil =>
        cases stands with
        | here => exact .inr ⟨rfl, rfl⟩
        | there never => cases never
    | cons first items ih =>
        cases stands with
        | here => exact .inl .here
        | there later =>
            rcases ih later with before | ⟨rfl, rfl⟩
            · exact .inl (.there before)
            · exact .inr ⟨rfl, rfl⟩
  · rintro (before | ⟨rfl, rfl⟩)
    · exact before.append _
    · exact last_of items item

end StandsAt

end Constant

/-! ## Filling a pool -/

namespace ConstantPool

open Constant (widths StandsAt)

/-- A pool with constants from a slot on. -/
def fill (pool : ConstantPool) : Nat → List Constant → ConstantPool
  | _, [] => pool
  | index, item :: items => (pool.set (UInt16.ofNat index) item).fill (index + item.width) items

theorem size_set (pool : ConstantPool) (index : UInt16) (item : Constant) :
    (pool.set index item).size = pool.size :=
  Array.size_setIfInBounds ..

theorem slot_ofSize (count index : UInt16) : (ofSize count).slot index = .empty := by
  simp only [slot, ofSize, Array.getD_eq_getD_getElem?, Array.getElem?_replicate]
  split <;> rfl

variable {pool : ConstantPool} {index : Nat} {items : List Constant} {slot : UInt16}

theorem size_fill : (pool.fill index items).size = pool.size := by
  induction items generalizing pool index with
  | nil => rfl
  | cons item items ih => exact ih.trans (size_set ..)

theorem toNat_index (room : index + widths items ≤ 65535) :
    (UInt16.ofNat index).toNat = index :=
  UInt16.toNat_ofNat_of_lt' (by rw [UInt16.size]; omega)

/-- A slot where no constant starts is as it was. -/
theorem slot_fill_of_none (room : index + widths items ≤ 65535)
    (none : ∀ item place, StandsAt items item place → slot.toNat ≠ index + place) :
    (pool.fill index items).slot slot = pool.slot slot := by
  induction items generalizing pool index with
  | nil => rfl
  | cons first items ih =>
      have start := toNat_index room
      have apart := none first 0 .here
      rw [Constant.widths_cons] at room
      rw [fill, ih (by omega), slot_set, if_neg]
      · rintro ⟨rfl, -⟩
        exact apart start
      · intro item place stands
        have := none item _ (.there stands)
        omega

/-- A constant is in the slot where it starts. -/
theorem slot_fill_of_standsAt (room : index + widths items ≤ 65535)
    (inside : slot.toNat < pool.size) {item : Constant} {place : Nat}
    (stands : StandsAt items item place) (here : slot.toNat = index + place) :
    (pool.fill index items).slot slot = item := by
  induction stands generalizing pool index with
  | @here item items =>
      have start := toNat_index room
      have positive := item.width_pos
      rw [Constant.widths_cons] at room
      rw [fill, slot_fill_of_none (by omega) (fun _ _ _ => by omega), slot_set, if_pos]
      exact ⟨UInt16.toNat_inj.mp (start.trans here.symm), by omega⟩
  | there later ih =>
      rw [Constant.widths_cons] at room
      exact ih (by omega) (by rw [size_set]; omega) (by omega)

end ConstantPool

namespace Assembler

open Constant (widths StandsAt)

/-! ## Adding constants -/

namespace PoolBuilder

/-- The slots of a pool, with slot zero. -/
def slots (pool : PoolBuilder) : Nat := 1 + widths pool.items.toList

/-- Whether constants are numbered by their slots, as long as there are numbers. -/
structure Counted (pool : PoolBuilder) : Prop where
  written : ∀ item ∈ pool.items.toList, item.IsWritten
  fresh : pool.slots < 65536 → pool.fresh.toNat = pool.slots
  numbers : pool.slots < 65536 → ∀ (item : Constant) (number : UInt16),
    pool.numbers[item]? = some number ↔
      ∃ place, StandsAt pool.items.toList item place ∧ number.toNat = 1 + place

/-- Whether one pool has come from another by adding constants. -/
structure Grows (before after : PoolBuilder) : Prop where
  counted : before.Counted → after.Counted
  numbers : ∀ (item : Constant) (number : UInt16), before.numbers[item]? = some number →
    after.numbers[item]? = some number

namespace Grows

variable {first second third : PoolBuilder}

theorem refl (pool : PoolBuilder) : pool.Grows pool :=
  ⟨id, fun _ _ => id⟩

theorem trans (left : first.Grows second) (right : second.Grows third) : first.Grows third :=
  ⟨fun counted => right.counted (left.counted counted), fun item number same =>
    right.numbers item number (left.numbers item number same)⟩

end Grows

theorem counted_empty : ({} : PoolBuilder).Counted where
  written _ never := by cases never
  fresh _ := rfl
  numbers _ item number := by
    constructor
    · intro found
      rw [Std.HashMap.getElem?_empty] at found
      cases found
    · rintro ⟨place, never, -⟩
      cases never

variable {pool : PoolBuilder} {item : Constant}

/-- A new constant gets the next number and all others keep theirs. -/
theorem add_of_new (new : pool.numbers[item]? = none) :
    pool.add item = (pool.fresh,
      { items := pool.items.push item
        numbers := pool.numbers.insert item pool.fresh
        next := pool.fresh + UInt16.ofNat item.width }) := by
  rw [add, new]

theorem add_of_known {number : UInt16} (known : pool.numbers[item]? = some number) :
    pool.add item = (number, pool) := by
  rw [add, known]

theorem Counted.add_new (counted : pool.Counted) (written : item.IsWritten)
    (new : pool.numbers[item]? = none) : (pool.add item).2.Counted := by
  have slots : (pool.add item).2.slots = pool.slots + item.width := by
    rw [add_of_new new, PoolBuilder.slots, PoolBuilder.slots, Array.toList_push,
      Constant.widths_concat, Nat.add_assoc]
  have positive := item.width_pos
  constructor
  · rw [add_of_new new, Array.toList_push]
    intro other member
    rcases List.mem_append.mp member with before | last
    · exact counted.written other before
    · exact List.mem_singleton.mp last ▸ written
  · intro room
    rw [slots] at room ⊢
    have fresh := counted.fresh (by omega)
    have next : (pool.fresh + UInt16.ofNat item.width).toNat = pool.slots + item.width := by
      rw [UInt16.toNat_add, UInt16.toNat_ofNat', fresh]
      omega
    have some : pool.fresh + UInt16.ofNat item.width ≠ 0 := by
      intro zero
      rw [zero, UInt16.toNat_zero] at next
      omega
    rw [add_of_new new, PoolBuilder.fresh, if_neg some, next]
  · intro room other number
    rw [slots] at room
    have fresh := counted.fresh (by omega)
    have numbers := counted.numbers (by omega)
    rw [add_of_new new, Std.HashMap.getElem?_insert, Array.toList_push]
    simp only [StandsAt.concat_iff, beq_iff_eq]
    by_cases same : item = other
    · subst same
      rw [if_pos rfl]
      constructor
      · rintro ⟨⟩
        exact ⟨_, .inr ⟨rfl, rfl⟩, fresh⟩
      · rintro ⟨place, before | ⟨-, rfl⟩, equal⟩
        · -- a constant that stands in the pool has a number
          have inside := before.le_widths
          have known := (numbers item (UInt16.ofNat (1 + place))).mpr ⟨place, before, by
            rw [UInt16.toNat_ofNat']
            unfold PoolBuilder.slots at room
            omega⟩
          cases new.symm.trans known
        · exact congrArg some (UInt16.toNat_inj.mp (fresh.trans equal.symm))
    · rw [if_neg same, numbers]
      constructor
      · rintro ⟨place, before, equal⟩
        exact ⟨place, .inl before, equal⟩
      · rintro ⟨place, before | ⟨rfl, -⟩, equal⟩
        · exact ⟨place, before, equal⟩
        · exact absurd rfl same

theorem grows_add (pool : PoolBuilder) (written : item.IsWritten) :
    pool.Grows (pool.add item).2 := by
  cases known : pool.numbers[item]? with
  | some number =>
      rw [add_of_known known]
      exact .refl pool
  | none =>
      refine ⟨fun counted => counted.add_new written known, fun other number found => ?_⟩
      have different : ¬(item == other) = true := by
        intro same
        rw [eq_of_beq same] at known
        cases known.symm.trans found
      rw [add_of_new known, Std.HashMap.getElem?_insert, if_neg different, found]

/-- What has been added has the number that was given. -/
theorem numbers_add (pool : PoolBuilder) (item : Constant) :
    (pool.add item).2.numbers[item]? = some (pool.add item).1 := by
  cases known : pool.numbers[item]? with
  | some number => rw [add_of_known known, known]
  | none => rw [add_of_new known, Std.HashMap.getElem?_insert_self]

/-! ## Reading a pool back -/

/-- The pool that holds every constant in the slot of its number. -/
def filled (pool : PoolBuilder) : ConstantPool :=
  (ConstantPool.ofSize pool.fresh).fill 1 pool.items.toList

section

variable (counted : pool.Counted) (room : pool.slots < 65536)

include counted room

theorem size_filled : pool.filled.size = pool.slots := by
  rw [filled, ConstantPool.size_fill, ← counted.fresh room]
  exact Array.size_replicate

theorem slot_of_numbered {number : UInt16} (numbered : pool.numbers[item]? = some number) :
    pool.filled.slot number = item := by
  obtain ⟨place, stands, start⟩ := (counted.numbers room item number).mp numbered
  refine ConstantPool.slot_fill_of_standsAt (Nat.le_of_lt_succ room) ?_ stands start
  have size : (ConstantPool.ofSize pool.fresh).size = 1 + widths pool.items.toList :=
    ConstantPool.size_fill.symm.trans (size_filled counted room)
  have positive := item.width_pos
  have within := stands.le_widths
  omega

theorem slot_of_unnumbered {slot : UInt16}
    (unnumbered : ∀ item : Constant, pool.numbers[item]? ≠ some slot) :
    pool.filled.slot slot = .empty := by
  rw [filled, ConstantPool.slot_fill_of_none (Nat.le_of_lt_succ room),
    ConstantPool.slot_ofSize]
  intro item place stands start
  exact unnumbered item ((counted.numbers room item slot).mpr ⟨place, stands, start⟩)

/-- The second slot of an eight-byte literal is empty. -/
theorem slot_behind {number : UInt16} (numbered : pool.numbers[item]? = some number)
    (wide : item.width = 2) : pool.filled.slot (number + 1) = .empty := by
  obtain ⟨place, stands, start⟩ := (counted.numbers room item number).mp numbered
  have inside := stands.le_widths
  have behind : (number + 1).toNat = number.toNat + 1 := by
    rw [UInt16.toNat_add, UInt16.toNat_one]
    unfold PoolBuilder.slots at room
    omega
  refine slot_of_unnumbered counted room fun other same => ?_
  obtain ⟨index, starts, equal⟩ := (counted.numbers room other (number + 1)).mp same
  have := stands.apart starts
  omega

/-- Slot zero is no number. -/
theorem slot_zero : pool.filled.slot 0 = .empty := by
  refine slot_of_unnumbered counted room fun item numbered => ?_
  obtain ⟨place, -, start⟩ := (counted.numbers room item 0).mp numbered
  rw [UInt16.toNat_zero] at start
  omega

end

/-- A constant as a class file holds it. -/
def itemBytes (item : Constant) : List UInt8 := tagByte item :: payload item

/-- Every constant takes a byte. -/
theorem length_le_bytes (items : List Constant) :
    items.length ≤ (items.flatMap itemBytes).length := by
  induction items with
  | nil => exact Nat.le_refl _
  | cons item items ih =>
      rw [List.flatMap_cons, itemBytes, List.length_append, List.length_cons, List.length_cons]
      omega

theorem encode_toList (pool : PoolBuilder) :
    pool.encode.toList = Bytes.ofShort pool.fresh ++ pool.items.toList.flatMap itemBytes := by
  have go (items : List Constant) (bytes : Array UInt8) :
      (items.foldl (fun (bytes : Array UInt8) item => bytes.push (tagByte item) ++ payload item)
        bytes).toList = bytes.toList ++ items.flatMap itemBytes := by
    induction items generalizing bytes with
    | nil => simp
    | cons item items ih =>
        rw [List.foldl_cons, ih]
        simp [itemBytes]
  rw [encode, ← Array.foldl_toList, go]

end PoolBuilder

end Assembler

/-- Whether the length of a text constant can be written. -/
def Constant.FitsText : Constant → Prop
  | .utf8 text => (Text.utf8 text).length < 65536
  | _ => True

namespace ClassFile

open Assembler (PoolBuilder)
open Assembler.PoolBuilder (tagByte payload itemBytes)
open Constant (widths)
open Cursor
open Reader (Reads)

variable {item : Constant}

theorem ofCode_tagByte (written : item.IsWritten) :
    ConstantTag.ofCode (tagByte item) = some item.tag := by
  obtain ⟨symbolic, nonempty⟩ := written
  cases item <;> first | rfl | exact symbolic.elim | exact absurd rfl nonempty

theorem reads_indexPair (make : UInt16 → UInt16 → Constant) (first second : UInt16) :
    Reads (indexPair make) (Bytes.ofShort first ++ Bytes.ofShort second) (make first second) :=
  (reads_short first).bind ((reads_short second).map (make first))

theorem reads_constant (written : item.IsWritten) (fits : item.FitsText) (index : UInt16) :
    Reads (constant item.tag index) (payload item) item := by
  cases item with
  | empty => exact absurd rfl written.2
  | resolvedClass _ | resolvedString _ | resolvedField _ | resolvedMethod _ =>
      exact written.1.elim
  | utf8 text =>
      have length : (UInt16.ofNat (Text.utf8 text).length).toNat = (Text.utf8 text).length :=
        UInt16.toNat_ofNat_of_lt' fits
      have bytes := reads_bytes? (Text.utf8 text)
      refine (reads_short _).bind ?_
      rw [length]
      refine bytes.last ?_
      rw [Text.decodeConstant?_utf8]
      exact Reads.pure (Constant.utf8 text)
  | integer value =>
      exact (reads_word value.toUInt32).map fun word => Constant.integer word.toInt32
  | float bits => exact (reads_word bits).map Constant.float
  | long value =>
      exact (reads_longWord value.toUInt64).map fun word => Constant.long word.toInt64
  | double bits => exact (reads_longWord bits).map Constant.double
  | cls index => exact (reads_short index).map Constant.cls
  | string index => exact (reads_short index).map Constant.string
  | methodType index => exact (reads_short index).map Constant.methodType
  | moduleRef index => exact (reads_short index).map Constant.moduleRef
  | packageRef index => exact (reads_short index).map Constant.packageRef
  | methodHandle kind index =>
      exact (reads_byte kind).bind ((reads_short index).map (Constant.methodHandle kind))
  | fieldRef first second | methodRef first second | interfaceMethodRef first second
  | nameAndType first second | dynamic first second | invokeDynamic first second =>
      exact reads_indexPair _ first second

theorem reads_constants (count : UInt16) {items : List Constant}
    (written : ∀ item ∈ items, item.IsWritten) (fits : ∀ item ∈ items, item.FitsText)
    {index bound : Nat} (ends : index + widths items = count.toNat) (enough : items.length ≤ bound)
    (pool : ConstantPool) :
    Reads (constants count bound (UInt16.ofNat index) pool) (items.flatMap itemBytes)
      (pool.fill index items) := by
  induction items generalizing index bound pool with
  | nil =>
      have behind : ¬UInt16.ofNat index < count := by
        rw [UInt16.lt_iff_toNat_lt, UInt16.toNat_ofNat']
        have := count.toNat_lt
        simp [widths] at ends
        omega
      cases bound with
      | zero => exact Reads.pure pool
      | succ bound =>
          rw [constants, if_neg behind]
          exact Reads.pure pool
  | cons item items ih =>
      cases bound with
      | zero => cases enough
      | succ bound =>
          have small := count.toNat_lt
          have positive := item.width_pos
          rw [Constant.widths_cons] at ends
          have inside : UInt16.ofNat index < count := by
            rw [UInt16.lt_iff_toNat_lt, UInt16.toNat_ofNat']
            omega
          have next : UInt16.ofNat index + UInt16.ofNat item.width =
              UInt16.ofNat (index + item.width) := (UInt16.ofNat_add index item.width).symm
          rw [constants, if_pos inside, List.flatMap_cons, itemBytes, List.cons_append,
            ← List.singleton_append]
          refine (reads_byte _).bind ?_
          rw [ofCode_tagByte (written item (.head _))]
          refine (reads_constant (written item (.head _)) (fits item (.head _)) _).bind ?_
          rw [next]
          exact ih (fun other member => written other (.tail _ member))
            (fun other member => fits other (.tail _ member)) (by omega)
            (Nat.le_of_succ_le_succ enough) _

/-- A pool is read back by as many constants as were added. -/
theorem reads_constantPool {pool : PoolBuilder} (counted : pool.Counted)
    (fits : ∀ item ∈ pool.items.toList, item.FitsText) (room : pool.slots < 65536) :
    Reads constantPool pool.encode.toList pool.filled := by
  rw [PoolBuilder.encode_toList]
  refine (reads_short _).bind ?_
  intro cursor inside here
  have enough : pool.items.toList.length ≤ cursor.bytes.size + 1 := by
    have each := PoolBuilder.length_le_bytes pool.items.toList
    omega
  exact reads_constants pool.fresh counted.written fits (counted.fresh room).symm enough _
    cursor inside here

end ClassFile

/-! ## Names of constants -/

namespace ConstantPool

/-- Whether a pool holds numbered constants in the slots of their numbers. -/
def Holds (pool : ConstantPool) (builder : Assembler.PoolBuilder) : Prop :=
  ∀ (item : Constant) (number : UInt16), builder.numbers[item]? = some number →
    pool.slot number = item

theorem Holds.of_grows {pool : ConstantPool} {before after : Assembler.PoolBuilder}
    (holds : pool.Holds after) (grows : before.Grows after) : pool.Holds before :=
  fun item number numbered => holds item number (grows.numbers item number numbered)

theorem className_of_slot {pool : ConstantPool} {index nameIndex : UInt16} {name : String}
    (cls : pool.slot index = .cls nameIndex) (text : pool.slot nameIndex = .utf8 name) :
    pool.className index = .ok name := by
  rw [← utf8_eq_ok_iff] at text
  simp only [className, get, cls, bind, Except.bind, text]

end ConstantPool

namespace Assembler

/-- A computation that adds constants and gives what fits a pool that holds them. -/
def Numbering.Gives {α : Type} (held : ConstantPool) (step : Numbering α) (post : α → Prop) :
    Prop :=
  ∀ pool, pool.Grows (step.run pool).2 ∧ (held.Holds (step.run pool).2 → post (step.run pool).1)

namespace Numbering.Gives

variable {α β : Type} {held : ConstantPool} {post : α → Prop}

protected theorem pure {value : α} (given : post value) :
    Gives held (pure value : Numbering α) post :=
  fun pool => ⟨.refl pool, fun _ => given⟩

/-- What a step gives is known from then on. -/
protected theorem bind {step : Numbering β} {next : β → Numbering α} {mid : β → Prop}
    (first : step.Gives held mid) (rest : ∀ value, (next value).Gives held fun result =>
      mid value → post result) : (step >>= next).Gives held post := by
  intro pool
  obtain ⟨early, given⟩ := first pool
  obtain ⟨late, ends⟩ := rest (step.run pool).1 (step.run pool).2
  exact ⟨early.trans late, fun holds => ends holds (given (holds.of_grows late))⟩

theorem mono {step : Numbering α} {weaker : α → Prop} (gives : step.Gives held post)
    (follows : ∀ value, post value → weaker value) : step.Gives held weaker :=
  fun pool => ⟨(gives pool).1, fun holds => follows _ ((gives pool).2 holds)⟩

/-- Whatever it gives, a computation only adds constants. -/
theorem grows {step : Numbering α} {given : ConstantPool → α → Prop}
    (gives : ∀ held, step.Gives held (given held)) (pool : PoolBuilder) :
    pool.Grows (step.run pool).2 :=
  (gives {} pool).1

theorem ite {condition : Prop} [Decidable condition] {left right : Numbering α}
    (yes : left.Gives held post) (no : right.Gives held post) :
    (if condition then left else right).Gives held post := by
  split
  · exact yes
  · exact no

end Numbering.Gives

namespace Numbering

variable {held : ConstantPool}

theorem gives_item (constant : Constant) (written : constant.IsWritten) :
    (item constant).Gives held fun number => held.slot number = constant :=
  fun pool => ⟨pool.grows_add written, fun holds => holds _ _ (pool.numbers_add constant)⟩

theorem gives_utf8 (text : String) :
    (utf8 text).Gives held fun number => held.slot number = .utf8 text :=
  gives_item _ ⟨True.intro, nofun⟩

theorem gives_cls (name : String) :
    (cls name).Gives held fun number => held.className number = .ok name :=
  (gives_utf8 name).bind fun index => (gives_item (.cls index) ⟨True.intro, nofun⟩).mono
    fun _ entry text => ConstantPool.className_of_slot entry text

theorem gives_string (text : String) :
    (string text).Gives held fun number => ∃ textIndex,
      held.slot number = .string textIndex ∧ held.slot textIndex = .utf8 text :=
  (gives_utf8 text).bind fun index => (gives_item (.string index) ⟨True.intro, nofun⟩).mono
    fun _ entry text => ⟨index, entry, text⟩

theorem gives_nameAndType (name descriptor : String) :
    (nameAndType name descriptor).Gives held fun _ => True :=
  (gives_utf8 name).bind fun first => (gives_utf8 descriptor).bind fun second =>
    (gives_item (.nameAndType first second) ⟨True.intro, nofun⟩).mono
      fun _ _ _ _ => True.intro

theorem gives_member {make : UInt16 → UInt16 → Constant}
    (written : ∀ first second, (make first second).IsWritten) (owner name descriptor : String) :
    (member make owner name descriptor).Gives held fun _ => True :=
  (gives_cls owner).bind fun _ => (gives_nameAndType name descriptor).bind fun _ =>
    (gives_item _ (written _ _)).mono fun _ _ _ _ => True.intro

end Numbering

end Assembler

end Jvm
