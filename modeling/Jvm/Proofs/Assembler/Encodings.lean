import Jvm.Proofs.Assembler.Decoding
import Jvm.Proofs.Assembler.Numbers

/-!
# Encodings of constants and locals

A number is pushed, and a local is read, written or incremented, by instructions of several
lengths. The assembler takes the shortest that holds the operands. Whichever it takes, the
bytes are decoded as an instruction with the number or the local that was asked for.
-/

namespace Jvm

/-- Whether an instruction is decoded from an opcode with these operands, wherever they stand
in code of less than 2^32 bytes. -/
structure Instr.Encoded (instr : Instr) (opcode : Opcode) (operands : List UInt8) : Prop where
  plain : opcode ≠ .breakpoint
  decodes : ∀ (code : Array UInt8) (pc : UInt32), pc.toNat + operands.length + 1 < 4294967296 →
    Bytes.At code (pc.toNat + 1) operands →
      Instr.decode code pc opcode = .ok (instr, pc + UInt32.ofNat (1 + operands.length))

namespace Bytecode

open Assembler

variable {code : Array UInt8} {pc : UInt32}

theorem byte_of_at {value : UInt8} (here : Bytes.At code pc.toNat [value]) :
    byte code pc = .ok value := by
  have first : code[pc.toNat]? = _ := here.getElem? 0 rfl
  rw [byte, first]

/-- A byte some places behind a pc. -/
theorem byte_behind {value : UInt8} (distance : Nat)
    (small : pc.toNat + distance < 4294967296)
    (here : Bytes.At code (pc.toNat + distance) [value]) :
    byte code (pc + UInt32.ofNat distance) = .ok value :=
  byte_of_at (toNat_add_ofNat distance small ▸ here)

/-- Two bytes some places behind a pc. -/
theorem short_behind {value : UInt16} (distance : Nat)
    (small : pc.toNat + distance < 4294967296)
    (here : Bytes.At code (pc.toNat + distance) (Bytes.ofShort value)) :
    short code (pc + UInt32.ofNat distance) = .ok value :=
  short_of_at (toNat_add_ofNat distance small ▸ here)

end Bytecode

namespace Instr.Encoded

open Bytecode

/-- An instruction that is its opcode. -/
theorem of_opcode {instr : Instr} {opcode : Opcode} (plain : opcode ≠ .breakpoint)
    (decoded : ∀ code pc, decode code pc opcode = .ok (instr, pc + 1)) :
    instr.Encoded opcode [] where
  plain := plain
  decodes code pc _ _ := decoded code pc

theorem of_byte (make : UInt8 → Instr) {opcode : Opcode} (plain : opcode ≠ .breakpoint)
    (decoded : ∀ code pc, decode code pc opcode = withByte code pc make) (value : UInt8) :
    (make value).Encoded opcode [value] where
  plain := plain
  decodes code pc small here := by
    rw [List.length_singleton] at small
    have read : byte code (pc + 1) = .ok value := byte_behind 1 (by omega) here
    rw [decoded, withByte, read]
    rfl

theorem of_short (make : UInt16 → Instr) {opcode : Opcode} (plain : opcode ≠ .breakpoint)
    (decoded : ∀ code pc, decode code pc opcode = withShort code pc make) (value : UInt16) :
    (make value).Encoded opcode (Bytes.ofShort value) where
  plain := plain
  decodes code pc small here := by
    have read : short code (pc + 1) = .ok value := short_behind 1 (by omega) here
    rw [decoded, withShort, read]
    rfl

theorem increment (index delta : UInt8) :
    (Instr.increment index.toUInt16 delta.toInt8.toInt32).Encoded .iInc [index, delta] where
  plain := by decide
  decodes code pc small here := by
    simp only [List.length_cons, List.length_nil] at small
    have parts : Bytes.At code (pc.toNat + 1) ([index] ++ [delta]) := here
    have first : byte code (pc + 1) = .ok index := byte_behind 1 (by omega) parts.left
    have second : byte code (pc + 2) = .ok delta := byte_behind 2 (by omega) parts.right
    rw [decode, increments, first]
    simp only [bind, Except.bind, second]
    rfl

/-- An operation behind a widening byte. -/
theorem wide {instr : Instr} {operation : Opcode} (index : UInt16)
    (decoded : ∀ code pc, byte code (pc + 1) = .ok operation.byte →
      short code (pc + 2) = .ok index → widened code pc = .ok (instr, pc + 4)) :
    instr.Encoded .wide (operation.byte :: Bytes.ofShort index) where
  plain := by decide
  decodes code pc small here := by
    simp only [List.length_cons, Bytes.length_ofShort] at small
    have parts : Bytes.At code (pc.toNat + 1) ([operation.byte] ++ Bytes.ofShort index) := here
    exact decoded code pc (byte_behind 1 (by omega) parts.left)
      (short_behind 2 (by omega) parts.right)

theorem wideIncrement (index delta : UInt16) :
    (Instr.increment index delta.toInt16.toInt32).Encoded .wide
      (Opcode.iInc.byte :: (Bytes.ofShort index ++ Bytes.ofShort delta)) where
  plain := by decide
  decodes code pc small here := by
    simp only [List.length_cons, List.length_append, Bytes.length_ofShort] at small
    have parts : Bytes.At code (pc.toNat + 1)
        ([Opcode.iInc.byte] ++ Bytes.ofShort index ++ Bytes.ofShort delta) := here
    have first : byte code (pc + 1) = .ok Opcode.iInc.byte :=
      byte_behind 1 (by omega) parts.left.left
    have second : short code (pc + 2) = .ok index := short_behind 2 (by omega) parts.left.right
    have third : short code (pc + 4) = .ok delta := short_behind 4 (by omega) parts.right
    rw [decode, widened, first]
    simp only [bind, Except.bind, second, Opcode.ofByte_byte, third]
    rfl

end Instr.Encoded

/-! ## Numbers that fit fewer bits -/

theorem toInt32_toInt8 {value : Int32} (low : -128 ≤ value) (high : value ≤ 127) :
    value.toInt8.toInt32 = value := by
  rw [Int32.le_iff_toInt_le] at low high
  have least : (-128 : Int32).toInt = -128 := by decide
  have most : (127 : Int32).toInt = 127 := by decide
  apply Int32.toInt_inj.mp
  rw [Int8.toInt_toInt32, Int32.toInt_toInt8, Int.bmod_eq_of_le] <;> omega

theorem toInt32_toInt16 {value : Int32} (low : -32768 ≤ value) (high : value ≤ 32767) :
    value.toInt16.toInt32 = value := by
  rw [Int32.le_iff_toInt_le] at low high
  have least : (-32768 : Int32).toInt = -32768 := by decide
  have most : (32767 : Int32).toInt = 32767 := by decide
  apply Int32.toInt_inj.mp
  rw [Int16.toInt_toInt32, Int32.toInt_toInt16, Int.bmod_eq_of_le] <;> omega

theorem toInt32_toInt8_of_short {value : Int16} (low : -128 ≤ value) (high : value ≤ 127) :
    value.toInt8.toInt32 = value.toInt32 := by
  rw [Int16.le_iff_toInt_le] at low high
  have least : (-128 : Int16).toInt = -128 := by decide
  have most : (127 : Int16).toInt = 127 := by decide
  apply Int32.toInt_inj.mp
  rw [Int8.toInt_toInt32, Int16.toInt_toInt32, Int16.toInt_toInt8, Int.bmod_eq_of_le] <;> omega

theorem toUInt16_toUInt8 {value : UInt16} (small : value ≤ 0xFF) :
    value.toUInt8.toUInt16 = value := by
  rw [UInt16.le_iff_toNat_le] at small
  have most : (0xFF : UInt16).toNat = 255 := rfl
  apply UInt16.toNat_inj.mp
  rw [UInt8.toNat_toUInt16, UInt16.toNat_toUInt8, Nat.mod_eq_of_lt (by omega)]

/-- The value of a number constant. -/
def Constant.value? : Constant → Option Value
  | .integer value => some (.int value)
  | .long value => some (.long value)
  | .float bits => some (.float bits)
  | .double bits => some (.double bits)
  | _ => none

namespace Assembler

namespace LocalKind

/-- How the machine moves a local of a kind. -/
def transfer : LocalKind → Transfer
  | .int | .float => .single
  | .long | .double => .double
  | .reference => .reference

/-- The loads of the first four locals. -/
def shortLoads : LocalKind → List Opcode
  | .int => [.iLoad0, .iLoad1, .iLoad2, .iLoad3]
  | .long => [.lLoad0, .lLoad1, .lLoad2, .lLoad3]
  | .float => [.fLoad0, .fLoad1, .fLoad2, .fLoad3]
  | .double => [.dLoad0, .dLoad1, .dLoad2, .dLoad3]
  | .reference => [.aLoad0, .aLoad1, .aLoad2, .aLoad3]

/-- The stores of the first four locals. -/
def shortStores : LocalKind → List Opcode
  | .int => [.iStore0, .iStore1, .iStore2, .iStore3]
  | .long => [.lStore0, .lStore1, .lStore2, .lStore3]
  | .float => [.fStore0, .fStore1, .fStore2, .fStore3]
  | .double => [.dStore0, .dStore1, .dStore2, .dStore3]
  | .reference => [.aStore0, .aStore1, .aStore2, .aStore3]

end LocalKind

/-! ## What lines stand for -/

namespace Line

/-- The number that a line pushes. -/
def value? : Line → Option Value
  | .int value => some (.int value)
  | .long value => some (.long value)
  | .float bits => some (.float bits)
  | .double bits => some (.double bits)
  | _ => none

/-- Whether a line pushes a number, or accesses a local whose end fits in sixteen bits
whatever its kind. -/
def Moves : Line → Prop
  | .int _ | .long _ | .float _ | .double _ => True
  | .load _ index | .store _ index | .increment index _ => index ≤ 65533
  | _ => False

/-- The instructions that a line may stand for, when constants are numbered by a pool. -/
inductive Denotes (pool : PoolBuilder) : Line → Instr → Prop
  | push {line : Line} {value : Value} (pushes : line.value? = some value) :
      Denotes pool line (.push value)
  | constant {line : Line} {value : Value} {item : Constant} {number : UInt16}
      (pushes : line.value? = some value) (holds : item.value? = some value)
      (numbered : pool.numbers[item]? = some number) : Denotes pool line (.constant number)
  | load (kind : LocalKind) (index : UInt16) :
      Denotes pool (.load kind index) (.load kind.transfer index)
  | store (kind : LocalKind) (index : UInt16) :
      Denotes pool (.store kind index) (.store kind.transfer index)
  | increment (index : UInt16) (delta : Int16) :
      Denotes pool (.increment index delta) (.increment index delta.toInt32)

/-- Whether code has been continued by the bytes of one instruction that a line stands for. -/
def Encodes (line : Line) (before after : CodeBuilder) (pool : PoolBuilder) : Prop :=
  ∃ opcode operands instr, before.Appends after [.bytes (opcode.byte :: operands)] ∧
    instr.Encoded opcode operands ∧ line.Denotes pool instr

end Line

/-! ## Bytes of one instruction -/

section

variable {builder after : CodeBuilder} {pool : PoolBuilder} {line : Line} {instr : Instr}
  {opcode : Opcode} {operands : List UInt8}

theorem Line.Denotes.encodes (denotes : line.Denotes pool instr)
    (encoded : instr.Encoded opcode operands)
    (code : after.code.toList = builder.code.toList ++ opcode.byte :: operands)
    (fixups : after.fixups = builder.fixups) : line.Encodes builder after pool :=
  ⟨opcode, operands, instr,
    ⟨code.trans (by simp [Piece.blank]), fixups ▸ (List.append_nil _).symm⟩, encoded, denotes⟩

theorem encodes_byte (plain : opcode ≠ .breakpoint)
    (decoded : ∀ code pc, Instr.decode code pc opcode = .ok (instr, pc + 1))
    (denotes : line.Denotes pool instr) : line.Encodes builder (builder.byte opcode.byte) pool :=
  denotes.encodes (.of_opcode plain decoded) (by simp [CodeBuilder.byte]) rfl

theorem encodes_withByte (make : UInt8 → Instr) {value : UInt8} (plain : opcode ≠ .breakpoint)
    (decoded : ∀ code pc, Instr.decode code pc opcode = Instr.withByte code pc make)
    (denotes : line.Denotes pool (make value)) :
    line.Encodes builder ((builder.op opcode).byte value) pool :=
  denotes.encodes (.of_byte make plain decoded value) (by simp [CodeBuilder.op, CodeBuilder.byte]) rfl

theorem encodes_withIndex (make : UInt16 → Instr) {number : UInt16}
    (plain : opcode ≠ .breakpoint)
    (decoded : ∀ code pc, Instr.decode code pc opcode = Instr.withShort code pc make)
    (denotes : line.Denotes pool (make number)) :
    line.Encodes builder (builder.withIndex opcode number) pool :=
  denotes.encodes (.of_short make plain decoded number)
    (by simp [CodeBuilder.withIndex, CodeBuilder.op, CodeBuilder.byte, CodeBuilder.short,
      CodeBuilder.bytes]) rfl

/-- The shorter instruction holds a number that fits its byte. -/
theorem encodes_loadConstant {number : UInt16} (denotes : line.Denotes pool (.constant number)) :
    line.Encodes builder (builder.loadConstant number) pool := by
  rw [CodeBuilder.loadConstant]
  split
  · next small =>
      refine encodes_withByte (fun operand => .constant operand.toUInt16) (by decide)
        (fun _ _ => rfl) ?_
      rw [toUInt16_toUInt8 small]
      exact denotes
  · exact encodes_withIndex .constant (by decide) (fun _ _ => rfl) denotes

end

/-! ## Constants -/

section

variable (builder : CodeBuilder) (pool : PoolBuilder)

/-- The seven smallest numbers have opcodes in a row. -/
theorem exists_intOpcode {value : Int32} (low : -1 ≤ value) (high : value ≤ 5) :
    ∃ opcode : Opcode, opcode.byte = Opcode.iConst0.byte + value.toInt8.toUInt8 ∧
      opcode ≠ .breakpoint ∧
        ∀ code pc, Instr.decode code pc opcode = .ok (.push (.int value), pc + 1) := by
  have small : value = -1 ∨ value = 0 ∨ value = 1 ∨ value = 2 ∨ value = 3 ∨ value = 4 ∨
      value = 5 := by
    have least : (-1 : Int32).toInt = -1 := by decide
    have most : (5 : Int32).toInt = 5 := by decide
    rw [Int32.le_iff_toInt_le] at low high
    simp only [← Int32.toInt_inj]
    simp
    omega
  obtain rfl | rfl | rfl | rfl | rfl | rfl | rfl := small
  · exact ⟨.iConstM1, by decide, by decide, fun _ _ => rfl⟩
  · exact ⟨.iConst0, by decide, by decide, fun _ _ => rfl⟩
  · exact ⟨.iConst1, by decide, by decide, fun _ _ => rfl⟩
  · exact ⟨.iConst2, by decide, by decide, fun _ _ => rfl⟩
  · exact ⟨.iConst3, by decide, by decide, fun _ _ => rfl⟩
  · exact ⟨.iConst4, by decide, by decide, fun _ _ => rfl⟩
  · exact ⟨.iConst5, by decide, by decide, fun _ _ => rfl⟩

theorem encodes_int (value : Int32) :
    (Line.int value).Encodes builder ((intConstant builder value).run pool).1
      ((intConstant builder value).run pool).2 := by
  rw [intConstant]
  split
  · next range =>
      obtain ⟨opcode, same, plain, decoded⟩ := exists_intOpcode range.1 range.2
      rw [← same]
      exact encodes_byte plain decoded (.push rfl)
  · split
    · next range =>
        refine encodes_withByte (fun operand => .push (.int operand.toInt8.toInt32))
          (by decide) (fun _ _ => rfl) ?_
        rw [Int8.toInt8_toUInt8, toInt32_toInt8 range.1 range.2]
        exact .push rfl
    · split
      · next range =>
          refine encodes_withIndex (fun operand => .push (.int operand.toInt16.toInt32))
            (by decide) (fun _ _ => rfl) ?_
          rw [Int16.toInt16_toUInt16, toInt32_toInt16 range.1 range.2]
          exact .push rfl
      · exact encodes_loadConstant (.constant rfl rfl (pool.numbers_add (.integer value)))

theorem encodes_long (value : Int64) :
    (Line.long value).Encodes builder ((longConstant builder value).run pool).1
      ((longConstant builder value).run pool).2 := by
  rw [longConstant]
  split
  · next zero => exact encodes_byte (by decide) (fun _ _ => rfl) (.push (zero ▸ rfl))
  · split
    · next one => exact encodes_byte (by decide) (fun _ _ => rfl) (.push (one ▸ rfl))
    · exact encodes_withIndex .constant (by decide) (fun _ _ => rfl)
        (.constant rfl rfl (pool.numbers_add (.long value)))

theorem encodes_float (bits : UInt32) :
    (Line.float bits).Encodes builder ((floatConstant builder bits).run pool).1
      ((floatConstant builder bits).run pool).2 := by
  rw [floatConstant]
  split
  · next zero => exact encodes_byte (by decide) (fun _ _ => rfl) (.push (zero ▸ rfl))
  · split
    · next one => exact encodes_byte (by decide) (fun _ _ => rfl) (.push (one ▸ rfl))
    · split
      · next two => exact encodes_byte (by decide) (fun _ _ => rfl) (.push (two ▸ rfl))
      · exact encodes_loadConstant (.constant rfl rfl (pool.numbers_add (.float bits)))

theorem encodes_double (bits : UInt64) :
    (Line.double bits).Encodes builder ((doubleConstant builder bits).run pool).1
      ((doubleConstant builder bits).run pool).2 := by
  rw [doubleConstant]
  split
  · next zero => exact encodes_byte (by decide) (fun _ _ => rfl) (.push (zero ▸ rfl))
  · split
    · next one => exact encodes_byte (by decide) (fun _ _ => rfl) (.push (one ▸ rfl))
    · exact encodes_withIndex .constant (by decide) (fun _ _ => rfl)
        (.constant rfl rfl (pool.numbers_add (.double bits)))

end

/-! ## Locals -/

section

variable {index : UInt16}

theorem four_cases (short : index ≤ 3) : index = 0 ∨ index = 1 ∨ index = 2 ∨ index = 3 := by
  have most : (3 : UInt16).toNat = 3 := rfl
  rw [UInt16.le_iff_toNat_le] at short
  simp only [← UInt16.toNat_inj]
  simp
  omega

/-- The loads of the first four locals have opcodes in a row. -/
theorem exists_shortLoad (kind : LocalKind) (short : index ≤ 3) :
    ∃ opcode : Opcode, opcode.byte = kind.shortLoad.byte + index.toUInt8 ∧
      opcode ≠ .breakpoint ∧
        ∀ code pc, Instr.decode code pc opcode = .ok (.load kind.transfer index, pc + 1) := by
  refine ⟨kind.shortLoads.getD index.toNat .nop, ?_⟩
  obtain rfl | rfl | rfl | rfl := four_cases short <;> cases kind <;>
    exact ⟨by decide, by decide, fun _ _ => rfl⟩

/-- The stores of the first four locals have opcodes in a row. -/
theorem exists_shortStore (kind : LocalKind) (short : index ≤ 3) :
    ∃ opcode : Opcode, opcode.byte = kind.shortStore.byte + index.toUInt8 ∧
      opcode ≠ .breakpoint ∧
        ∀ code pc, Instr.decode code pc opcode = .ok (.store kind.transfer index, pc + 1) := by
  refine ⟨kind.shortStores.getD index.toNat .nop, ?_⟩
  obtain rfl | rfl | rfl | rfl := four_cases short <;> cases kind <;>
    exact ⟨by decide, by decide, fun _ _ => rfl⟩

variable (builder : CodeBuilder) (pool : PoolBuilder) {line : Line}

/-- An access is decoded with its local, be the index in the opcode, in one byte or in two. -/
theorem encodes_access {base shortBase : Opcode} {make : UInt16 → Instr} (width : UInt16)
    (plain : base ≠ .breakpoint)
    (short : index ≤ 3 → ∃ opcode : Opcode, opcode.byte = shortBase.byte + index.toUInt8 ∧
      opcode ≠ .breakpoint ∧ ∀ code pc, Instr.decode code pc opcode = .ok (make index, pc + 1))
    (byte : ∀ code pc, Instr.decode code pc base =
      Instr.withByte code pc fun operand => make operand.toUInt16)
    (wide : ∀ code pc, Bytecode.byte code (pc + 1) = .ok base.byte →
      Bytecode.short code (pc + 2) = .ok index →
        Instr.widened code pc = .ok (make index, pc + 4))
    (denotes : line.Denotes pool (make index)) :
    line.Encodes builder (builder.access base shortBase index width) pool := by
  simp only [CodeBuilder.access]
  split
  · next small =>
      obtain ⟨opcode, same, plain, decoded⟩ := short small
      rw [← same]
      exact denotes.encodes (.of_opcode plain decoded)
        (by simp [CodeBuilder.byte, CodeBuilder.touch]) rfl
  · split
    · next small =>
        have encoded := Instr.Encoded.of_byte _ plain byte index.toUInt8
        rw [toUInt16_toUInt8 small] at encoded
        exact denotes.encodes encoded
          (by simp [CodeBuilder.op, CodeBuilder.byte, CodeBuilder.touch]) rfl
    · exact denotes.encodes (.wide index wide)
        (by simp [CodeBuilder.op, CodeBuilder.byte, CodeBuilder.touch, CodeBuilder.short,
          CodeBuilder.bytes]) rfl

theorem encodes_load (kind : LocalKind) (index : UInt16) :
    (Line.load kind index).Encodes builder
      (builder.access kind.load kind.shortLoad index kind.width) pool := by
  refine encodes_access builder pool kind.width (by cases kind <;> decide)
    (exists_shortLoad kind) (fun code pc => by cases kind <;> rfl) (fun code pc first second => ?_)
    (.load kind index)
  rw [Instr.widened, first]
  simp only [bind, Except.bind, second, Opcode.ofByte_byte]
  cases kind <;> rfl

theorem encodes_store (kind : LocalKind) (index : UInt16) :
    (Line.store kind index).Encodes builder
      (builder.access kind.store kind.shortStore index kind.width) pool := by
  refine encodes_access builder pool kind.width (by cases kind <;> decide)
    (exists_shortStore kind) (fun code pc => by cases kind <;> rfl) (fun code pc first second => ?_)
    (.store kind index)
  rw [Instr.widened, first]
  simp only [bind, Except.bind, second, Opcode.ofByte_byte]
  cases kind <;> rfl

theorem encodes_increment (index : UInt16) (delta : Int16) :
    (Line.increment index delta).Encodes builder (builder.increment index delta) pool := by
  simp only [CodeBuilder.increment]
  split
  · next small =>
      have encoded := Instr.Encoded.increment index.toUInt8 delta.toInt8.toUInt8
      rw [toUInt16_toUInt8 small.1, Int8.toInt8_toUInt8,
        toInt32_toInt8_of_short small.2.1 small.2.2] at encoded
      exact (Line.Denotes.increment index delta).encodes encoded
        (by simp [CodeBuilder.op, CodeBuilder.byte, CodeBuilder.touch]) rfl
  · have encoded := Instr.Encoded.wideIncrement index delta.toUInt16
    rw [Int16.toInt16_toUInt16] at encoded
    exact (Line.Denotes.increment index delta).encodes encoded
      (by simp [CodeBuilder.op, CodeBuilder.byte, CodeBuilder.touch, CodeBuilder.short,
        CodeBuilder.bytes]) rfl

end

/-- A line that pushes a number or accesses a local appends the bytes of one instruction. -/
theorem encodes_line (builder : CodeBuilder) (pool : PoolBuilder) {written : Line}
    (moves : written.Moves) :
    written.Encodes builder ((line builder written).run pool).1
      ((line builder written).run pool).2 := by
  cases written with
  | int value => exact encodes_int builder pool value
  | long value => exact encodes_long builder pool value
  | float bits => exact encodes_float builder pool bits
  | double bits => exact encodes_double builder pool bits
  | load kind index => exact encodes_load builder pool kind index
  | store kind index => exact encodes_store builder pool kind index
  | increment index delta => exact encodes_increment builder pool index delta
  | _ => exact moves.elim

end Assembler

end Jvm
