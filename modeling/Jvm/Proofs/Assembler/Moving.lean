import Jvm.Proofs.Assembler.Encodings
import Jvm.Proofs.Assembler.Extents
import Jvm.Proofs.Assembler.Labels
import Jvm.Proofs.Assembler.Members
import Jvm.Proofs.Debugging.Shadowing
import Jvm.Proofs.Slots.Editing

/-!
# Constants and locals in a machine

When a machine runs the bytes of a line that pushes a number or accesses a local, it pushes
that number or accesses that local, whatever encoding the assembler chose, and it goes on
behind the bytes of the line. Of the slots below the top nothing else changes.
-/

namespace Jvm

namespace Machine

/-- Whether the current frame has these locals and operands above the slots below it. -/
structure Shows (machine : Machine) (below locals operands : List TaggedSlot) : Prop where
  cells : machine.exec.stack.toList = below ++ locals ++ operands
  start : below.length = machine.exec.localSlot 0
  room : machine.exec.stack.sp ≤ machine.exec.stack.slots.size

/-- A machine with another stack that goes on at a pc. -/
def goesOn (machine : Machine) (stack : Stack) (next : UInt32) : Machine :=
  machine.modifyExec fun exec => { exec with stack, pc := next }

@[simp] theorem stack_goesOn (machine : Machine) (stack : Stack) (next : UInt32) :
    (machine.goesOn stack next).exec.stack = stack := rfl

end Machine

/-- Whether a pool holds the numbers that were numbered, whatever became of the other
constants. -/
def ConstantPool.Supplies (pool : ConstantPool) (builder : Assembler.PoolBuilder) : Prop :=
  ∀ (item : Constant) (value : Value) (number : UInt16), item.value? = some value →
    builder.numbers[item]? = some number → pool.slot number = item

/-- A number constant is pushed. -/
theorem Guest.pushConstant_of_slot {machine : Machine} {id : ClassId} {index : UInt16}
    {item : Constant} {value : Value} (holds : item.value? = some value)
    (here : (machine.cls id).pool.slot index = item) (next : UInt32) :
    Guest.pushConstant id index next machine =
      .ok .next (machine.goesOn (machine.exec.stack.pushValue value) next) := by
  have nonempty : item ≠ .empty := by
    rintro rfl
    cases holds
  have got : (machine.cls id).pool.get index = .ok item :=
    (ConstantPool.get_eq_ok_iff _ _ _).mpr ⟨here, nonempty⟩
  have found : Guest.constantAt id index machine = .ok item machine := by
    rw [Guest.constantAt]
    refine (bind_of_ok rfl).trans ?_
    rw [got]
    rfl
  rw [Guest.pushConstant]
  refine (bind_of_ok found).trans ?_
  cases item <;> cases holds <;> rfl

namespace Assembler

/-- Slots that a line takes from the operands, if it accesses a local. -/
def Line.pops : Line → Nat
  | .store kind _ => kind.transfer.slots
  | _ => 0

/-- What a line that pushes a number or accesses a local makes of locals and operands. -/
inductive Line.Acts : Line → List TaggedSlot → List TaggedSlot → List TaggedSlot →
    List TaggedSlot → Prop
  | constant {line : Line} {value : Value} (pushes : line.value? = some value)
      (locals operands : List TaggedSlot) : Acts line locals operands locals (operands ++ value.cells)
  | load {kind : LocalKind} {index : UInt16} {front held behind : List TaggedSlot}
      (place : front.length = index.toNat) (width : held.length = kind.transfer.slots)
      (operands : List TaggedSlot) :
      Acts (.load kind index) (front ++ held ++ behind) operands (front ++ held ++ behind)
        (operands ++ kind.transfer.arrive held)
  | store {kind : LocalKind} {index : UInt16} {front old behind moved : List TaggedSlot}
      (place : front.length = index.toNat) (width : old.length = kind.transfer.slots)
      (same : moved.length = kind.transfer.slots) (operands : List TaggedSlot) :
      Acts (.store kind index) (front ++ old ++ behind) (operands ++ moved)
        (front ++ kind.transfer.arrive moved ++ behind) operands
  | increment {index : UInt16} {delta : Int16} {front behind : List TaggedSlot} {old : TaggedSlot}
      (place : front.length = index.toNat) (operands : List TaggedSlot) :
      Acts (.increment index delta) (front ++ [old] ++ behind) operands
        (front ++ [(old.1 + delta.toInt32.toUInt32, false)] ++ behind) operands

theorem LocalKind.toNat_width (kind : LocalKind) : kind.width.toNat = kind.transfer.slots := by
  cases kind <;> rfl

/-- A part of a list that lies inside. -/
theorem exists_middle {items : List TaggedSlot} {index width : Nat}
    (inside : index + width ≤ items.length) :
    ∃ front middle behind, items = front ++ middle ++ behind ∧ front.length = index ∧
      middle.length = width := by
  refine ⟨items.take index, (items.drop index).take width, (items.drop index).drop width, ?_, ?_, ?_⟩
  · rw [List.append_assoc, List.take_append_drop, List.take_append_drop]
  · rw [List.length_take]
    omega
  · rw [List.length_take, List.length_drop]
    omega

/-- The end of a list that is long enough. -/
theorem exists_end {items : List TaggedSlot} {width : Nat} (enough : width ≤ items.length) :
    ∃ front last, items = front ++ last ∧ last.length = width := by
  refine ⟨items.take (items.length - width), items.drop (items.length - width), ?_, ?_⟩
  · rw [List.take_append_drop]
  · rw [List.length_drop]
    omega

section

variable {machine : Machine} {below locals operands : List TaggedSlot} {pool : PoolBuilder}
  {line : Line} {instr : Instr} {id : MethodId}

/-- An instruction that a line stands for acts as the line says. -/
theorem exists_acts (shows' : machine.Shows below locals operands)
    (supplied : (machine.cls id.owner).pool.Supplies pool) (denotes : line.Denotes pool instr)
    (covered : ∀ index width, line.local? = some (index, width) →
      index.toNat + width.toNat ≤ locals.length)
    (enough : line.pops ≤ operands.length) (next : UInt32) :
    ∃ locals' operands' after, line.Acts locals operands locals' operands' ∧
      (machine.goesOn after next).Shows below locals' operands' ∧
      ∀ reentry code pc, Guest.execute reentry id code pc next instr machine =
        .ok .next (machine.goesOn after next) := by
  obtain ⟨whole, start, room⟩ := shows'
  have slot {front : List TaggedSlot} {index : UInt16} (place : front.length = index.toNat) :
      (below ++ front).length = machine.exec.localSlot index.toNat := by
    rw [List.length_append, start, place, Execution.localSlot, Execution.localSlot]
  have pushed (value : Value) (pushes : line.value? = some value) :
      line.Acts locals operands locals (operands ++ value.cells) ∧
        (machine.goesOn (machine.exec.stack.pushValue value) next).Shows below locals
          (operands ++ value.cells) := by
    refine ⟨.constant pushes locals operands, ⟨?_, start, Stack.room_pushValue room value⟩⟩
    rw [← List.append_assoc, ← whole]
    exact machine.exec.stack.toList_pushValue value
  cases denotes with
  | push pushes =>
      obtain ⟨acts, shown⟩ := pushed _ pushes
      exact ⟨_, _, _, acts, shown, fun _ _ _ => rfl⟩
  | constant pushes holds numbered =>
      obtain ⟨acts, shown⟩ := pushed _ pushes
      exact ⟨_, _, _, acts, shown, fun _ _ _ =>
        Guest.pushConstant_of_slot holds (supplied _ _ _ holds numbered) next⟩
  | load kind index =>
      obtain ⟨front, held, behind, rfl, place, width⟩ :=
        exists_middle (kind.toNat_width ▸ covered index kind.width rfl)
      refine ⟨_, _, machine.exec.stack.load kind.transfer (machine.exec.localSlot index.toNat),
        .load place width operands, ⟨?_, start, Stack.room_load room _ _⟩, fun _ _ _ => rfl⟩
      have split : machine.exec.stack.toList = below ++ front ++ held ++ (behind ++ operands) := by
        simpa only [List.append_assoc] using whole
      have loaded := Stack.toList_load_of_toList kind.transfer split width room
      rw [slot place] at loaded
      simpa only [Machine.stack_goesOn, List.append_assoc] using loaded
  | store kind index =>
      obtain ⟨front, old, behind, rfl, place, width⟩ :=
        exists_middle (kind.toNat_width ▸ covered index kind.width rfl)
      obtain ⟨rest, moved, rfl, same⟩ := exists_end enough
      have split : machine.exec.stack.toList =
          below ++ front ++ old ++ (behind ++ rest) ++ moved := by
        simpa only [List.append_assoc] using whole
      have deep : kind.transfer.slots ≤ machine.exec.stack.sp := by
        rw [← Stack.length_toList, split, List.length_append, same]
        exact Nat.le_add_left _ _
      refine ⟨_, _, machine.exec.stack.store kind.transfer (machine.exec.localSlot index.toNat),
        .store place width same rest, ⟨?_, start, Stack.room_store room _ _ deep⟩,
        fun _ _ _ => rfl⟩
      have stored := Stack.toList_store_of_toList kind.transfer split width same room
      rw [slot place] at stored
      simpa only [Machine.stack_goesOn, List.append_assoc] using stored
  | increment index delta =>
      obtain ⟨front, middle, behind, rfl, place, width⟩ :=
        exists_middle (covered index 1 rfl)
      obtain ⟨old, rfl⟩ := List.length_eq_one_iff.mp width
      refine ⟨_, _, machine.exec.stack.increment (machine.exec.localSlot index.toNat)
        delta.toInt32, .increment place operands, ⟨?_, start, Stack.room_increment room _ _⟩,
        fun _ _ _ => rfl⟩
      have split : machine.exec.stack.toList =
          below ++ front ++ [old] ++ (behind ++ operands) := by
        simpa only [List.append_assoc] using whole
      have added := Stack.toList_increment_of_toList delta.toInt32 split
      rw [slot place] at added
      simpa only [Machine.stack_goesOn, List.append_assoc] using added

end

theorem Line.Denotes.mono {line : Line} {before after : PoolBuilder} {instr : Instr}
    (denotes : line.Denotes before instr) (grows : before.Grows after) :
    line.Denotes after instr := by
  cases denotes with
  | push pushes => exact .push pushes
  | constant pushes holds numbered => exact .constant pushes holds (grows.numbers _ _ numbered)
  | load kind index => exact .load kind index
  | store kind index => exact .store kind index
  | increment index delta => exact .increment index delta

/-- The end of a local that a line accesses fits in sixteen bits. -/
theorem Line.Moves.toNat_le {line : Line} {index width : UInt16} (moves : line.Moves)
    (accesses : line.local? = some (index, width)) : index.toNat + width.toNat ≤ 65535 := by
  have narrow : width.toNat ≤ 2 := by
    cases line <;> cases accesses
    case load kind => cases kind <;> decide
    case store kind => cases kind <;> decide
    case increment => decide
  have small : index ≤ 65533 := by cases line <;> cases accesses <;> exact moves
  rw [UInt16.le_iff_toNat_le] at small
  have most : (65533 : UInt16).toNat = 65533 := rfl
  omega

namespace Program

variable {program : Program} {code : Array UInt8} {pc : Nat} {machine fetched : Machine}
  {id : MethodId}

/-- Fetching changes no more than the debugger and the mark of the instruction to run. -/
theorem exists_marked (runs : program.RunsAt code pc machine id fetched) :
    ∃ debugger, fetched = machine.marked debugger none := by
  obtain ⟨byte, executed, -, ran⟩ := runs.fetches
  obtain ⟨debugger, ⟨never, -⟩ | ⟨run, -, -, same⟩⟩ :=
    ends_of_ok ran (Guest.ends_fetch_debugged id (UInt32.ofNat pc) byte machine)
  · cases never
  · exact ⟨debugger, same⟩

/-- A machine that runs the bytes of a line that encodes one instruction executes it, and
goes on behind the bytes of the line. -/
theorem exists_instr (finished : program.bytecode = .ok code) (short : code.size ≤ 0xFFFF)
    {before rest : List Line} {line : Line} (split : program.body = before ++ line :: rest)
    (moves : line.Moves) (runs : program.RunsAt code (program.pcAfter before) machine id fetched) :
    ∃ instr, line.Denotes (program.after program.body).2 instr ∧
      ∀ reentry, Guest.step reentry machine =
        Guest.execute reentry id (machine.codeOf id) (UInt32.ofNat (program.pcAfter before))
          (UInt32.ofNat (program.pcAfter (before ++ [line]))) instr fetched := by
  obtain ⟨opcode, operands, instr, appends, encoded, denotes⟩ :=
    encodes_line (program.after before).1 (program.after before).2 moves
  rw [← program.after_concat] at appends denotes
  obtain ⟨parts, fills, here, outside⟩ := program.at_of_appends finished split appends
  obtain _ | ⟨⟨⟩, ⟨⟨⟩⟩⟩ := mapM_eq_ok_iff.mp fills
  rw [List.flatten_singleton] at here outside
  have behind : Bytes.At (machine.codeOf id) (program.pcAfter before + 1) operands :=
    at_operands runs.toHeldBy here outside
  have inside := here.le_size (List.cons_ne_nil _ _)
  rw [List.length_cons] at inside
  have place : (UInt32.ofNat (program.pcAfter before)).toNat = program.pcAfter before :=
    UInt32.toNat_ofNat_of_lt' (by rw [UInt32.size]; omega)
  have next : UInt32.ofNat (program.pcAfter before) + UInt32.ofNat (1 + operands.length) =
      UInt32.ofNat (program.pcAfter (before ++ [line])) := by
    have size := appends.size
    rw [List.flatMap_singleton, Piece.blank, List.length_cons] at size
    rw [← UInt32.ofNat_add, pcAfter, pcAfter, size, Nat.add_comm 1]
  have decoded := encoded.decodes (machine.codeOf id) (UInt32.ofNat (program.pcAfter before))
    (by omega) (place.symm ▸ behind)
  refine ⟨instr, ?_, fun reentry => ?_⟩
  · have grown := program.grows_append (before ++ [line]) rest
    rw [← List.append_cons, ← split] at grown
    exact denotes.mono grown
  · rw [step_eq runs short (here.getElem? 0 rfl) encoded.plain, Guest.executeByte,
      Opcode.ofByte_byte]
    dsimp only
    rw [decoded, next]
    exact bind_of_ok rfl

/-- Constants and locals survive the choice of encoding. In a machine that runs the code of an
accepted body, a line that pushes a number pushes the number with its bits, and a line that
accesses a local up to 65533 loads, stores or increments that local and no other, where
references arrive tagged and other slots untagged. The machine goes on behind the bytes of
the line. -/
theorem encodings_keep_values (program : Program) (accepted : program.Accepted) :
    ∃ code, program.bytecode = .ok code ∧
      ∀ before line rest machine id fetched below locals operands,
        program.body = before ++ line :: rest → line.Moves →
        program.RunsAt code (program.pcAfter before) machine id fetched →
        (machine.cls id.owner).pool.Supplies (program.after program.body).2 →
        machine.Shows below locals operands →
        program.assembled.maxLocals.toNat ≤ locals.length → line.pops ≤ operands.length →
        ∃ locals' operands' after, line.Acts locals operands locals' operands' ∧
          (fetched.goesOn after (UInt32.ofNat (program.pcAfter (before ++ [line])))).Shows
            below locals' operands' ∧
          ∀ reentry, Guest.step reentry machine = .ok .next
            (fetched.goesOn after (UInt32.ofNat (program.pcAfter (before ++ [line])))) := by
  obtain ⟨⟨code, finished, good⟩, -⟩ := program.accepted_iff_finish.mp accepted
  refine ⟨code, finished, fun before line rest machine id fetched below locals operands split
    moves runs supplied shows' framed enough => ?_⟩
  obtain ⟨instr, denotes, steps⟩ := exists_instr finished good.2 split moves runs
  have covered (index width : UInt16) (accesses : line.local? = some (index, width)) :
      index.toNat + width.toNat ≤ locals.length :=
    Nat.le_trans (program.le_maxLocals (split ▸ List.mem_append_right before (.head rest)) accesses
      (moves.toNat_le accesses)) framed
  obtain ⟨debugger, rfl⟩ := exists_marked runs
  have marked : (machine.marked debugger none).Shows below locals operands :=
    ⟨shows'.cells, shows'.start, shows'.room⟩
  obtain ⟨locals', operands', after, acts, shown, executes⟩ :=
    exists_acts marked supplied denotes covered enough
      (UInt32.ofNat (program.pcAfter (before ++ [line])))
  exact ⟨locals', operands', after, acts, shown, fun reentry => (steps reentry).trans (executes ..)⟩

/-- A body that counts by more than a byte. -/
def counting : Program where
  slots := 1
  body := [.increment 0 300, .op .returnVoid]

def countingCode : Array UInt8 := #[0xC4, 0x84, 0, 0, 0x01, 0x2C, 0xB1]

theorem bytecode_counting : counting.bytecode = .ok countingCode := by rfl

/-- A machine at the start of the body, with a local. -/
def counter (held : Slot) : Machine :=
  (Machine.within countingCode []).modifyStack fun stack => stack.push held

theorem shows_counter (held : Slot) : (counter held).Shows
    (Machine.within countingCode []).exec.stack.toList [(held, false)] [] where
  cells := by
    rw [List.append_nil]
    exact Stack.toList_pushValue _ (.float held)
  start := by
    rw [Stack.length_toList]
    rfl
  room := by
    rw [counter]
    exact Stack.room_pushValue (by decide) (.float held)

theorem supplies_counter (held : Slot) :
    ((counter held).cls ⟨0⟩).pool.Supplies (counting.after counting.body).2 := by
  intro item value number _ numbered
  have none : (counting.after counting.body).2.numbers[item]? = none := Std.HashMap.getElem?_empty
  cases none.symm.trans numbered

theorem encodings_keep_values_increment :
    ∃ below after, ((counter 5).goesOn after 6).Shows below [(305, false)] [] ∧
      Guest.step (Bounds.reentry {}) (counter 5) = .ok .next ((counter 5).goesOn after 6) := by
  have accepted : counting.Accepted :=
    counting.accepted_iff_finish.mpr ⟨⟨_, bytecode_counting, by decide, by decide⟩, [], rfl⟩
  obtain ⟨code, finished, keeps⟩ := encodings_keep_values counting accepted
  obtain rfl : countingCode = code := Except.ok.inj (bytecode_counting.symm.trans finished)
  have runs : counting.RunsAt countingCode 0 (counter 5) ⟨⟨0⟩, 0⟩ (counter 5) :=
    { size := rfl, bytes := fun _ => .inl rfl, method := rfl, pc_eq := rfl
      fetches := ⟨0xC4, 0xC4, rfl, rfl⟩ }
  have moves : (Line.increment 0 300).Moves := show (0 : UInt16) ≤ 65533 by decide
  obtain ⟨locals, operands, after, acts, shown, steps⟩ :=
    keeps [] _ [.op .returnVoid] _ _ _ _ _ _ rfl moves runs (supplies_counter 5)
      (shows_counter 5) (Nat.le_refl 1) (Nat.zero_le _)
  generalize held : [((5 : Slot), false)] = cells at acts
  cases acts with
  | constant pushes => cases pushes
  | increment place =>
      cases List.length_eq_zero_iff.mp place
      cases held
      exact ⟨_, after, shown, steps _⟩

end Program

end Assembler

end Jvm
