import Mathlib.Data.List.Induction
import Jvm.Proofs.Assembler.Numbers
import Jvm.Proofs.Assembler.Program

/-!
# Extents of what is assembled

The number of locals of a body is found from the locals that its lines access, and the
numbers of constants from the slots of those before them. Both are counted in sixteen bits.
As long as the sums fit, every local that is accessed is counted and constants keep apart.
-/

namespace Jvm

namespace Assembler

theorem toNat_max (left right : UInt16) : (max left right).toNat = max left.toNat right.toNat := by
  have chosen : max left right = if left ≤ right then right else left := rfl
  rw [chosen, Nat.max_def]
  simp only [UInt16.le_iff_toNat_le]
  split <;> rfl

theorem max_zero (value : UInt16) : max value 0 = value := by
  apply UInt16.toNat_inj.mp
  rw [toNat_max]
  exact Nat.max_zero _

/-! ## Locals -/

namespace Line

/-- The local that a line accesses, with the number of its slots. -/
def local? : Line → Option (UInt16 × UInt16)
  | .load kind index | .store kind index => some (index, kind.width)
  | .increment index _ => some (index, 1)
  | _ => none

/-- The end of the local that a line accesses, in sixteen bits. -/
def localEnd (line : Line) : UInt16 := line.local?.elim 0 fun (index, width) => index + width

end Line

namespace CodeBuilder

variable (builder : CodeBuilder)

@[simp] theorem maxLocals_byte (value : UInt8) :
    (builder.byte value).maxLocals = builder.maxLocals := rfl

@[simp] theorem maxLocals_bytes (values : List UInt8) :
    (builder.bytes values).maxLocals = builder.maxLocals := rfl

theorem maxLocals_loadConstant (index : UInt16) :
    (builder.loadConstant index).maxLocals = builder.maxLocals := by
  rw [loadConstant]
  split <;> rfl

@[simp] theorem maxLocals_reserve (instruction : Nat) (label : Label) (far : Bool) :
    (builder.reserve instruction label far).maxLocals = builder.maxLocals := by
  cases far <;> rfl

theorem maxLocals_access (base shortBase : Opcode) (index width : UInt16) :
    (builder.access base shortBase index width).maxLocals =
      max builder.maxLocals (index + width) := by
  simp only [access]
  split
  · rfl
  · split <;> rfl

theorem maxLocals_increment (index : UInt16) (delta : Int16) :
    (builder.increment index delta).maxLocals = max builder.maxLocals (index + 1) := by
  simp only [increment]
  split <;> rfl

/-- A fold of steps that leave the number of locals leaves it. -/
theorem maxLocals_foldl {α : Type} {step : CodeBuilder → α → CodeBuilder}
    (each : ∀ (builder : CodeBuilder) item, (step builder item).maxLocals = builder.maxLocals)
    (items : List α) : (items.foldl step builder).maxLocals = builder.maxLocals := by
  induction items generalizing builder with
  | nil => rfl
  | cons item items ih => exact (ih (step builder item)).trans (each builder item)

theorem maxLocals_tableSwitch (low : Int32) (fallback : Label) (targets : List Label) :
    (builder.tableSwitch low fallback targets).maxLocals = builder.maxLocals := by
  simp [tableSwitch, maxLocals_foldl, maxLocals_reserve, word, align, op]

theorem maxLocals_lookupSwitch (fallback : Label) (pairs : List (Int32 × Label)) :
    (builder.lookupSwitch fallback pairs).maxLocals = builder.maxLocals := by
  simp [lookupSwitch, maxLocals_foldl, maxLocals_reserve, word, align, op]

end CodeBuilder

/-- Whether numbering constants for a line leaves the number of locals. -/
def SparesLocals (builder : CodeBuilder) (numbering : Numbering CodeBuilder) : Prop :=
  ∀ pool, (numbering.run pool).1.maxLocals = builder.maxLocals

namespace SparesLocals

variable {builder : CodeBuilder}

protected theorem pure {after : CodeBuilder} (same : after.maxLocals = builder.maxLocals) :
    SparesLocals builder (pure after) := fun _ => same

protected theorem bind {α : Type} {step : Numbering α} {next : α → Numbering CodeBuilder}
    (rest : ∀ value, SparesLocals builder (next value)) : SparesLocals builder (step >>= next) :=
  fun pool => rest (step.run pool).1 (step.run pool).2

theorem map {step : Numbering CodeBuilder} {change : CodeBuilder → CodeBuilder}
    (first : SparesLocals builder step)
    (same : ∀ other, (change other).maxLocals = other.maxLocals) :
    SparesLocals builder (step >>= fun other => Pure.pure (change other)) :=
  fun pool => (same _).trans (first pool)

theorem ite {condition : Prop} [Decidable condition] {left right : Numbering CodeBuilder}
    (yes : SparesLocals builder left) (no : SparesLocals builder right) :
    SparesLocals builder (if condition then left else right) := by
  split
  · exact yes
  · exact no

theorem intConstant (value : Int32) : SparesLocals builder (intConstant builder value) :=
  .ite (.pure rfl) <| .ite (.pure rfl) <| .ite (.pure rfl) <|
    .bind fun index => .pure (builder.maxLocals_loadConstant index)

theorem longConstant (value : Int64) : SparesLocals builder (longConstant builder value) :=
  .ite (.pure rfl) <| .ite (.pure rfl) <| .bind fun _ => .pure rfl

theorem floatConstant (bits : UInt32) : SparesLocals builder (floatConstant builder bits) :=
  .ite (.pure rfl) <| .ite (.pure rfl) <| .ite (.pure rfl) <|
    .bind fun index => .pure (builder.maxLocals_loadConstant index)

theorem doubleConstant (bits : UInt64) : SparesLocals builder (doubleConstant builder bits) :=
  .ite (.pure rfl) <| .ite (.pure rfl) <| .bind fun _ => .pure rfl

theorem classOperand (opcode : Opcode) (name : String) :
    SparesLocals builder (classOperand builder opcode name) :=
  .bind fun _ => .pure rfl

theorem memberOperand (opcode : Opcode) (make : UInt16 → UInt16 → Constant)
    (owner name descriptor : String) :
    SparesLocals builder (memberOperand builder opcode make owner name descriptor) :=
  .bind fun _ => .pure rfl

end SparesLocals

/-- A line counts the local that it accesses. -/
theorem maxLocals_line (builder : CodeBuilder) (written : Line) (pool : PoolBuilder) :
    ((line builder written).run pool).1.maxLocals = max builder.maxLocals written.localEnd := by
  have spared {numbering : Numbering CodeBuilder} (spares : SparesLocals builder numbering) :
      (numbering.run pool).1.maxLocals = max builder.maxLocals 0 :=
    (spares pool).trans (max_zero builder.maxLocals).symm
  cases written with
  | load kind index | store kind index => exact builder.maxLocals_access _ _ index kind.width
  | increment index delta => exact builder.maxLocals_increment index delta
  | int value => exact spared (.intConstant value)
  | long value => exact spared (.longConstant value)
  | float bits => exact spared (.floatConstant bits)
  | double bits => exact spared (.doubleConstant bits)
  | string _ | classConstant _ =>
      exact spared (.bind fun index => .pure (builder.maxLocals_loadConstant index))
  | branch opcode label | farJump label => exact spared (.pure (CodeBuilder.maxLocals_reserve ..))
  | tableSwitch low fallback targets =>
      exact spared (.pure (builder.maxLocals_tableSwitch low fallback targets))
  | lookupSwitch fallback pairs =>
      exact spared (.pure (builder.maxLocals_lookupSwitch fallback pairs))
  | handler start finish target catchType =>
      cases catchType with
      | none => exact spared (.pure rfl)
      | some name => exact spared (.bind fun _ => .pure rfl)
  | op _ | rawByte _ | rawShort _ | sourceLine _ | maxStack _ | newArray _ | bind _ =>
      exact spared (.pure rfl)
  | newObject name | newRefArray name | checkCast name | instanceOf name =>
      exact spared (.classOperand _ name)
  | newMultiArray name dimensions => exact spared ((SparesLocals.classOperand _ name).map fun _ => rfl)
  | getStatic owner name descriptor | putStatic owner name descriptor
  | getField owner name descriptor | putField owner name descriptor
  | invokeVirtual owner name descriptor | invokeSpecial owner name descriptor
  | invokeStatic owner name descriptor =>
      exact spared (.memberOperand _ _ owner name descriptor)
  | invokeInterface owner name descriptor =>
      exact spared ((SparesLocals.memberOperand _ _ owner name descriptor).map fun _ => rfl)

namespace Program

variable (program : Program)

/-- The number of locals is the least that covers the arguments and the end of every local
that a line accesses. -/
theorem maxLocals_le_iff (lines : List Line) (bound : UInt16) :
    (program.after lines).1.maxLocals ≤ bound ↔
      program.slots ≤ bound ∧ ∀ line ∈ lines, line.localEnd ≤ bound := by
  induction lines using List.reverseRecOn with
  | nil => exact (and_iff_left nofun).symm
  | append_singleton lines last ih =>
      rw [after_concat, maxLocals_line]
      simp only [UInt16.le_iff_toNat_le, toNat_max, Nat.max_le, List.forall_mem_append,
        List.forall_mem_singleton] at ih ⊢
      rw [ih, and_assoc]

/-- A local whose end fits in sixteen bits is counted. -/
theorem le_maxLocals {written : Line} (member : written ∈ program.body) {index width : UInt16}
    (accesses : written.local? = some (index, width))
    (fits : index.toNat + width.toNat ≤ 65535) :
    index.toNat + width.toNat ≤ program.assembled.maxLocals.toNat := by
  have covered := ((program.maxLocals_le_iff program.body _).mp (UInt16.le_refl _)).2 _ member
  rw [Line.localEnd, accesses, Option.elim_some, UInt16.le_iff_toNat_le, UInt16.toNat_add,
    Nat.mod_eq_of_lt (Nat.lt_succ_of_le fits)] at covered
  exact covered

/-- A local whose end is past sixteen bits is not counted. -/
theorem maxLocals_concat_of_wraps (lines : List Line) {last : Line} (wraps : last.localEnd = 0) :
    (program.after (lines ++ [last])).1.maxLocals = (program.after lines).1.maxLocals := by
  rw [after_concat, maxLocals_line, wraps, max_zero]

/-- A body whose only access is to the last local there can be. -/
def accessingLast : Program where
  slots := 0
  body := [.load .int 65535, .op .pop, .op .returnVoid]

/-- The last local is past the number of locals, and the body is accepted. -/
theorem accepted_accessingLast :
    accessingLast.Accepted ∧ accessingLast.assembled.maxLocals = 0 :=
  ⟨accessingLast.accepted_iff_finish.mpr ⟨⟨_, rfl, by decide, by decide⟩, [], rfl⟩, rfl⟩

end Program

end Assembler

/-! ## Numbers -/

namespace Constant.StandsAt

/-- One constant starts at a place. -/
theorem eq_of_place {items : List Constant} {item other : Constant} {place index : Nat}
    (stands : StandsAt items item place) (starts : StandsAt items other index)
    (same : place = index) : item = other := by
  induction stands generalizing index with
  | @here item items =>
      have := item.width_pos
      cases starts with
      | here => rfl
      | there later => omega
  | @there first item items place later ih =>
      have := first.width_pos
      cases starts with
      | here => omega
      | there behind => exact ih behind (Nat.add_left_cancel same)

end Constant.StandsAt

namespace Assembler.PoolBuilder

variable {pool : PoolBuilder}

/-- The count of a pool is its slots exactly if sixteen bits hold them. -/
theorem toNat_fresh_iff (counted : pool.Counted) :
    pool.fresh.toNat = pool.slots ↔ pool.slots < 65536 :=
  ⟨fun same => same ▸ pool.fresh.toNat_lt, counted.fresh⟩

/-- As long as there are numbers left, those of two constants are not zero, and no slot is
a slot of both. -/
theorem numbers_apart (counted : pool.Counted) (room : pool.slots < 65536)
    {item other : Constant} {number index : UInt16} (numbered : pool.numbers[item]? = some number)
    (numbered' : pool.numbers[other]? = some index) (different : item ≠ other) :
    0 < number.toNat ∧ 0 < index.toNat ∧
      (number.toNat + item.width ≤ index.toNat ∨ index.toNat + other.width ≤ number.toNat) := by
  obtain ⟨place, stands, start⟩ := (counted.numbers room item number).mp numbered
  obtain ⟨place', stands', start'⟩ := (counted.numbers room other index).mp numbered'
  have elsewhere : place ≠ place' :=
    fun same => different (stands.eq_of_place stands' same)
  refine ⟨by omega, by omega, ?_⟩
  have := stands.apart stands'
  have := stands'.apart stands
  omega

end Assembler.PoolBuilder

end Jvm
