import Jvm.Machine.Step
import Jvm.Proofs.Effects
import Jvm.Proofs.Assembler.Decoding
import Jvm.Proofs.Assembler.Program
import Jvm.Proofs.Machine.FrameChain

/-!
# Where labels lead

An assembled branch or switch names labels, the machine goes to places. When the machine
runs the bytes of such a line, the place it goes to is the one where the label that the
line selects was bound last. Breakpoints on the code of the method make no difference.
-/

namespace Jvm

/-- The code that a method of a machine holds. -/
def Machine.codeOf (machine : Machine) (id : MethodId) : Array UInt8 :=
  (machine.method id).code.elim #[] (·.bytecode)

/-- Whether an opcode is that of an instruction of three bytes. -/
def Opcode.Encodes (opcode : Opcode) (instr : Instr) : Prop :=
  ∀ code pc, Instr.decode code pc opcode = .ok (instr, pc + 3)

/-! ## Fetching -/

namespace Guest

/-- A jump goes to the pc plus the offset that was read. -/
theorem jumpBy_of_ok {id : MethodId} {pc distance : UInt32} {machine : Machine}
    {offset : Except DecodeFault UInt32} (decoded : offset = .ok distance) :
    jumpBy id pc offset machine =
      .ok .next (machine.modifyExec fun exec => { exec with pc := pc + distance }) := by
  rw [decoded]
  rfl

/-- What fetching an instruction only looks at: the stack and the breakpoints. -/
def fetchView (machine : Machine) : Stack × List ((MethodId × UInt32) × UInt8) :=
  (machine.exec.stack, machine.breakpoints)

theorem fetchView_stopBefore (machine : Machine) (reason : StopReason) (id : MethodId)
    (pc : UInt32) : fetchView (machine.stopBefore reason id pc).2 = fetchView machine := by
  rw [Machine.stopBefore, Machine.reportStop]
  dsimp only
  cases (machine.debugger.report (machine.stopAt reason id pc)).1 <;> rfl

theorem fetchView_checkStop (machine : Machine) (id : MethodId) (pc : UInt32) :
    fetchView (machine.checkStop id pc).2 = fetchView machine := by
  rw [Machine.checkStop]
  split
  · dsimp only
    split
    · exact fetchView_stopBefore _ _ _ _
    · rfl
  · rfl

theorem spares_takeResumed (id : MethodId) (pc : UInt32) :
    Spares fetchView (takeResumed id pc) := by
  refine .bind .get fun machine => ?_
  split
  · exact .pure _
  · exact .bind (.modify fun _ => rfl) fun _ => .pure _

theorem spares_underBreakpoint (id : MethodId) (pc : UInt32) (resumed : Bool) :
    Spares fetchView (underBreakpoint id pc resumed) := by
  refine .bind .get fun machine => ?_
  split
  · exact .throw _
  · split
    · exact .pure _
    · refine .bind (.modifyGet fun machine => fetchView_stopBefore _ _ _ _) fun stopped => ?_
      split <;> exact .pure _

variable {id : MethodId} {pc : UInt32} {byte executed : UInt8} {machine fetched : Machine}

/-- The byte under a breakpoint is what runs there. -/
theorem ends_underBreakpoint (resumed : Bool) :
    Ends (underBreakpoint id pc resumed) machine
      (fun found _ => ∀ byte, found = some byte → machine.breakpoint? id pc = some byte)
      fun _ _ => True := by
  rw [underBreakpoint, ends_bind, ends_get]
  split
  · exact ends_throw.mpr trivial
  · next under kept =>
      rw [kept]
      split
      · exact ends_pure.mpr fun _ same => same
      · rw [ends_bind, ends_modifyGet]
        split
        · exact ends_pure.mpr nofun
        · exact ends_pure.mpr fun _ same => same

/-- What fetching ends with: the byte that the code holds, or the one under the breakpoint
that it holds instead. -/
structure Fetches (id : MethodId) (pc : UInt32) (byte : UInt8) (machine : Machine)
    (found : Option UInt8) (fetched : Machine) : Prop where
  view : fetchView fetched = fetchView machine
  plain : byte ≠ Opcode.breakpoint.byte → found.getD byte = byte
  marked : byte = Opcode.breakpoint.byte → found.isSome → machine.breakpoint? id pc = found

theorem ends_fetch : Ends (fetch id pc byte) machine (Fetches id pc byte machine) fun _ _ => True := by
  have reads (resumed : Bool) (before : Machine) (same : fetchView before = fetchView machine) :
      Ends (if byte = Opcode.breakpoint.byte then underBreakpoint id pc resumed
        else pure (some byte)) before (Fetches id pc byte machine) fun _ _ => True := by
    have breakpoints : before.breakpoint? id pc = machine.breakpoint? id pc :=
      congrArg (fun view => view.2.lookup (id, pc)) same
    split
    · next marked =>
        refine ((spares_underBreakpoint id pc resumed before).and (ends_underBreakpoint resumed)).mono
          (fun found after ended => ⟨ended.1.trans same, absurd marked, fun _ some => ?_⟩)
          fun _ _ _ => trivial
        obtain ⟨executed, rfl⟩ := Option.isSome_iff_exists.mp some
        exact breakpoints ▸ ended.2 executed rfl
    · next other => exact ends_pure.mpr ⟨same, fun _ => rfl, (absurd · other)⟩
  rw [fetch, ends_bind]
  refine (spares_takeResumed id pc machine).mono (fun resumed before same => ?_)
    fun _ _ _ => trivial
  cases resumed with
  | true => exact reads true before same
  | false =>
      refine ends_bind.mpr (ends_modifyGet.mpr ?_)
      have asked := (fetchView_checkStop before id pc).trans same
      split
      · exact ends_pure.mpr ⟨asked, fun _ => rfl, nofun⟩
      · exact reads false _ asked

end Guest

namespace Assembler

/-- The opcode of a branch or switch. -/
def Line.opcode? : Line → Option Opcode
  | .branch opcode _ => some opcode
  | .farJump _ => some .gotoFar
  | .tableSwitch _ _ _ => some .tableSwitch
  | .lookupSwitch _ _ => some .lookupSwitch
  | _ => none

theorem Line.pieces_of_opcode? (pc : Nat) (other : List UInt8) {line : Line} {opcode : Opcode}
    (opens : line.opcode? = some opcode) :
    ∃ rest, line.pieces pc other = .bytes [opcode.byte] :: rest := by
  cases line <;> cases opens <;> exact ⟨_, rfl⟩

/-! ## Offsets to labels -/

namespace Program

variable (program : Program) {pc : Nat}

/-- Whether an offset leads from a pc to the place of a label. -/
def Leads (pc : Nat) (label : Label) (offset : UInt32) : Prop :=
  ∃ target, program.Binds label target ∧ UInt32.ofNat pc + offset = UInt32.ofNat target

variable {program}

/-- A room that is filled in holds the distance to the place of its label. -/
theorem exists_distance {label : Label} {far : Bool} {values : List UInt8}
    (fills : Piece.filled program.assembled (.offset pc label far) = .ok values) :
    ∃ distance, Piece.Fits far distance ∧ values = Piece.distanceBytes far distance ∧
      program.Leads pc label (Int32.ofInt distance).toUInt32 := by
  simp only [Piece.filled] at fills
  cases placed : program.assembled.place label with
  | error error =>
      rw [placed] at fills
      cases fills
  | ok target =>
      rw [placed] at fills
      simp only [bind, Except.bind] at fills
      split at fills
      · next fits =>
          cases fills
          exact ⟨_, fits, rfl, target, program.place_iff.mp placed, add_distance pc target⟩
      · cases fills

/-- A wide room holds an offset that leads to the place of its label. -/
theorem exists_offset {label : Label} {values : List UInt8}
    (fills : Piece.filled program.assembled (.offset pc label true) = .ok values) :
    ∃ offset, values = Bytes.ofWord offset ∧ program.Leads pc label offset := by
  obtain ⟨distance, -, rfl, leads⟩ := exists_distance fills
  exact ⟨_, rfl, leads⟩

/-- The rows of a table lead to the places of its targets. -/
theorem exists_rows {targets : List Label} {parts : List (List UInt8)}
    (fills : (targets.map fun target => Piece.offset pc target true).mapM
      (Piece.filled program.assembled) = .ok parts) :
    ∃ rows, parts.flatten = rows.flatMap Bytes.ofWord ∧
      List.Forall₂ (program.Leads pc) targets rows := by
  have each := List.forall₂_map_left_iff.mp (mapM_eq_ok_iff.mp fills)
  clear fills
  induction each with
  | nil => exact ⟨[], rfl, .nil⟩
  | cons first rest ih =>
      obtain ⟨row, rfl, leads⟩ := exists_offset first
      obtain ⟨rows, flat, more⟩ := ih
      exact ⟨row :: rows, by rw [List.flatten_cons, flat, List.flatMap_cons], .cons leads more⟩

/-- The pairs of a lookup switch lead to the places of their labels. -/
theorem exists_pairs {pairs : List (Int32 × Label)} {parts : List (List UInt8)}
    (fills : (pairs.flatMap fun pair => [Piece.bytes (Bytes.ofWord pair.1.toUInt32),
      Piece.offset pc pair.2 true]).mapM (Piece.filled program.assembled) = .ok parts) :
    ∃ rows : List (Int32 × UInt32),
      parts.flatten = rows.flatMap (fun row => Bytes.ofWord row.1.toUInt32 ++ Bytes.ofWord row.2) ∧
      List.Forall₂ (fun pair row => pair.1 = row.1 ∧ program.Leads pc pair.2 row.2) pairs rows := by
  induction pairs generalizing parts with
  | nil =>
      cases fills
      exact ⟨[], rfl, .nil⟩
  | cons pair pairs ih =>
      obtain ⟨head, tail, first, second, rfl⟩ := mapM_append_eq_ok fills
      obtain ⟨rows, flat, more⟩ := ih second
      obtain _ | ⟨⟨⟩, _ | ⟨filled, ⟨⟩⟩⟩ := mapM_eq_ok_iff.mp first
      obtain ⟨offset, rfl, leads⟩ := exists_offset filled
      refine ⟨(pair.1, offset) :: rows, ?_, .cons ⟨rfl, leads⟩ more⟩
      rw [List.flatten_append, flat, List.flatMap_cons]
      simp

/-! ## Lines in code -/

variable (program) in
/-- Whether bytes are what follows the first byte of a line at a pc. -/
def WrittenAs (pc : Nat) (line : Line) (operands : List UInt8) : Prop :=
  ∃ other parts first, (line.pieces pc other).mapM (Piece.filled program.assembled) = .ok parts ∧
    parts.flatten = first :: operands

section

variable {code : Array UInt8} {operands : List UInt8}
  (here : Bytes.At code (pc + 1) operands) (small : code.size ≤ 0xFFFF)

include here small

/-- The operands of a line start behind its opcode. -/
theorem toNat_behind (nonempty : operands ≠ []) : (UInt32.ofNat pc + 1).toNat = pc + 1 := by
  have inside := here.le_size nonempty
  have positive := List.length_pos_iff.mpr nonempty
  have place : (UInt32.ofNat pc).toNat = pc :=
    UInt32.toNat_ofNat_of_lt' (by rw [UInt32.size]; omega)
  rw [show (1 : UInt32) = UInt32.ofNat 1 from rfl, toNat_add_ofNat _ (by omega), place]

theorem nearOffset_leads {opcode : Opcode} {label : Label}
    (written : program.WrittenAs pc (.branch opcode label) operands) :
    ∃ offset,
      Bytecode.nearOffset code (UInt32.ofNat pc + 1) = .ok offset ∧
        program.Leads pc label offset := by
  obtain ⟨other, parts, first, fills, flat⟩ := written
  obtain _ | ⟨⟨⟩, _ | ⟨filled, ⟨⟩⟩⟩ := mapM_eq_ok_iff.mp fills
  obtain ⟨distance, fits, rfl, leads⟩ := exists_distance filled
  obtain ⟨rfl, rfl⟩ := List.cons.inj flat
  rw [List.flatten_singleton] at here
  have behind := toNat_behind here small nofun
  exact ⟨_, Bytecode.nearOffset_of_at fits (behind ▸ here), leads⟩

theorem farOffset_leads {label : Label}
    (written : program.WrittenAs pc (.farJump label) operands) :
    ∃ offset,
      Bytecode.farOffset code (UInt32.ofNat pc + 1) = .ok offset ∧
        program.Leads pc label offset := by
  obtain ⟨other, parts, first, fills, flat⟩ := written
  obtain _ | ⟨⟨⟩, _ | ⟨filled, ⟨⟩⟩⟩ := mapM_eq_ok_iff.mp fills
  obtain ⟨offset, rfl, leads⟩ := exists_offset filled
  obtain ⟨rfl, rfl⟩ := List.cons.inj flat
  rw [List.flatten_singleton] at here
  have behind := toNat_behind here small nofun
  exact ⟨offset, Bytecode.word_of_at (behind ▸ here), leads⟩

theorem tableOffset_leads {low : Int32} {fallback : Label} {targets : List Label}
    (nonempty : 0 < targets.length) (inside : low.toInt + targets.length - 1 ≤ 2147483647)
    (key : Int32)
    (written : program.WrittenAs pc (.tableSwitch low fallback targets) operands) :
    ∃ offset,
      Bytecode.tableOffset code (UInt32.ofNat pc) key = .ok offset ∧
        program.Leads pc (selectRow low fallback targets key) offset := by
  obtain ⟨other, parts, first, fills, flat⟩ := written
  obtain ⟨head, tail, before, behind, rfl⟩ := mapM_append_eq_ok fills
  obtain _ | ⟨⟨⟩, _ | ⟨⟨⟩, _ | ⟨filled, _ | ⟨⟨⟩, _ | ⟨⟨⟩, ⟨⟩⟩⟩⟩⟩⟩ := mapM_eq_ok_iff.mp before
  obtain ⟨offset, rfl, leads⟩ := exists_offset filled
  obtain ⟨rows, rest, each⟩ := exists_rows behind
  rw [List.flatten_append, rest, List.flatten_cons, List.singleton_append, List.cons_append]
    at flat
  obtain ⟨rfl, rfl⟩ := List.cons.inj flat
  have row : Bytes.At code (pc + 1) (switchPadding pc ++ (Bytes.ofWord offset ++
      Bytes.ofWord low.toUInt32 ++ Bytes.ofWord (low + Int32.ofNat targets.length - 1).toUInt32 ++
      rows.flatMap Bytes.ofWord)) := by
    simpa only [List.flatten_cons, List.flatten_nil, List.append_nil, List.append_assoc] using here
  have end' := row.right.le_size (by simp [Bytes.ofWord])
  simp only [List.length_append, Bytes.length_ofWord, List.length_flatMap, List.map_const',
    List.sum_replicate_nat] at end'
  have base := Bytecode.toNat_switchBase pc (by omega)
  have aligned := row.right
  rw [each.length_eq, ← base] at aligned
  rw [each.length_eq] at nonempty inside
  exact ⟨_, Bytecode.tableOffset_of_at nonempty inside (by omega) aligned,
    selectRow_related leads each key⟩

theorem lookupOffset_leads {fallback : Label} {pairs : List (Int32 × Label)} (key : Int32)
    (written : program.WrittenAs pc (.lookupSwitch fallback pairs) operands) :
    ∃ offset,
      Bytecode.lookupOffset code (UInt32.ofNat pc) key = .ok offset ∧
        program.Leads pc (selectPair fallback pairs key) offset := by
  obtain ⟨other, parts, first, fills, flat⟩ := written
  obtain ⟨head, tail, before, behind, rfl⟩ := mapM_append_eq_ok fills
  obtain _ | ⟨⟨⟩, _ | ⟨⟨⟩, _ | ⟨filled, _ | ⟨⟨⟩, ⟨⟩⟩⟩⟩⟩ := mapM_eq_ok_iff.mp before
  obtain ⟨offset, rfl, leads⟩ := exists_offset filled
  obtain ⟨rows, rest, each⟩ := exists_pairs behind
  rw [List.flatten_append, rest, List.flatten_cons, List.singleton_append, List.cons_append]
    at flat
  obtain ⟨rfl, rfl⟩ := List.cons.inj flat
  have row : Bytes.At code (pc + 1) (switchPadding pc ++ (Bytes.ofWord offset ++
      Bytes.ofWord (UInt32.ofNat pairs.length) ++ rows.flatMap fun row =>
        Bytes.ofWord row.1.toUInt32 ++ Bytes.ofWord row.2)) := by
    simpa only [List.flatten_cons, List.flatten_nil, List.append_nil, List.append_assoc] using here
  have end' := row.right.le_size (by simp [Bytes.ofWord])
  simp only [List.length_append, Bytes.length_ofWord, List.length_flatMap, List.map_const',
    List.sum_replicate_nat] at end'
  have base := Bytecode.toNat_switchBase pc (by omega)
  have aligned := row.right
  have count : pairs.length = rows.length :=
    (List.length_mergeSort pairs).symm.trans each.length_eq
  rw [count, ← base] at aligned
  refine ⟨_, Bytecode.lookupOffset_of_at (by omega) aligned, ?_⟩
  rw [← selectPair_sortedPairs]
  exact selectPair_related leads each key

end

/-! ## Lines in a machine -/

variable (program) in
/-- Whether a method of a machine holds the code of a program. Breakpoints may stand for the
first bytes of lines. -/
structure HeldBy (code : Array UInt8) (machine : Machine) (id : MethodId) : Prop where
  size : (machine.codeOf id).size = code.size
  bytes : ∀ index, (machine.codeOf id)[index]? = code[index]? ∨
    (machine.codeOf id)[index]? = some Opcode.breakpoint.byte ∧
      machine.breakpoint? id (UInt32.ofNat index) = code[index]? ∧
      ∃ line, program.Emits index line

variable (program) in
/-- Whether a machine is about to run the code of a program at a pc and has fetched the
byte there. -/
structure RunsAt (code : Array UInt8) (pc : Nat) (machine : Machine) (id : MethodId)
    (fetched : Machine) : Prop extends program.HeldBy code machine id where
  method : machine.exec.method = some id
  pc_eq : machine.exec.pc = UInt32.ofNat pc
  fetches : ∃ byte executed, (machine.codeOf id)[pc]? = some byte ∧
    Guest.fetch id (UInt32.ofNat pc) byte machine = .ok (some executed) fetched

section

variable {code : Array UInt8} {machine fetched : Machine} {id : MethodId}

/-- Breakpoints are set on first bytes: the operands of a line are not changed. -/
theorem at_operands (held : program.HeldBy code machine id) {first : UInt8}
    {operands : List UInt8} (here : Bytes.At code pc (first :: operands))
    (outside : ∀ index inner, program.Emits index inner →
      index ≤ pc ∨ pc + (first :: operands).length ≤ index) :
    Bytes.At (machine.codeOf id) (pc + 1) operands := by
  intro index inside
  have place : pc + 1 + index = pc + (index + 1) := by omega
  have written := here (index + 1) (Nat.succ_lt_succ inside)
  rcases held.bytes (pc + 1 + index) with same | ⟨-, -, line, starts⟩
  · rw [same, place, written]
    rfl
  · have apart := outside _ line starts
    rw [List.length_cons] at apart
    omega

/-- The first byte of a line that names labels is under a breakpoint at most, and its
operands are not changed. -/
theorem exists_operands (held : program.HeldBy code machine id)
    (finished : program.bytecode = .ok code) {line : Line} {opcode : Opcode}
    (emits : program.Emits pc line) (opens : line.opcode? = some opcode) :
    ∃ operands, program.WrittenAs pc line operands ∧ code[pc]? = some opcode.byte ∧
      Bytes.At (machine.codeOf id) (pc + 1) operands := by
  obtain ⟨other, parts, fills, here, outside⟩ := program.at_of_emits finished emits
  obtain ⟨rest, pieces⟩ := Line.pieces_of_opcode? pc other opens
  have each := mapM_eq_ok_iff.mp fills
  rw [pieces] at each
  obtain _ | ⟨⟨⟩, _⟩ := each
  next operandParts _ =>
    exact ⟨operandParts.flatten, ⟨other, _, opcode.byte, fills, rfl⟩, here.getElem? 0 rfl,
      at_operands held here outside⟩

end

end Program

/-! ## Running lines -/

/-- Whether a line, run at a pc on a stack, selects a label and leaves a stack. A table
switch has targets, and its keys do not wrap. -/
inductive Line.GoesTo (pc : UInt32) (stack : Stack) : Line → Label → Stack → Prop
  | branch {opcode : Opcode} {condition : Condition} {label : Label}
      (encodes : opcode.Encodes (.branch condition))
      (taken : (stack.decideCondition condition).1 = true) :
      GoesTo pc stack (.branch opcode label) label (stack.decideCondition condition).2
  | jump {opcode : Opcode} {label : Label} (encodes : opcode.Encodes (.jump false)) :
      GoesTo pc stack (.branch opcode label) label stack
  | jumpSubroutine {opcode : Opcode} {label : Label}
      (encodes : opcode.Encodes (.jumpSubroutine false)) :
      GoesTo pc stack (.branch opcode label) label (stack.push (pc + 3))
  | farJump {label : Label} : GoesTo pc stack (.farJump label) label stack
  | tableSwitch {low : Int32} {fallback : Label} {targets : List Label}
      (nonempty : 0 < targets.length) (inside : low.toInt + targets.length - 1 ≤ 2147483647) :
      GoesTo pc stack (.tableSwitch low fallback targets)
        (selectRow low fallback targets stack.pop.1.toInt32) stack.pop.2
  | lookupSwitch {fallback : Label} {pairs : List (Int32 × Label)} :
      GoesTo pc stack (.lookupSwitch fallback pairs)
        (selectPair fallback pairs stack.pop.1.toInt32) stack.pop.2

namespace Program

variable {program : Program} {code : Array UInt8} {pc : Nat} {machine fetched : Machine}
  {id : MethodId}

/-- Fetching leaves the stack alone. -/
theorem stack_of_runsAt (runs : program.RunsAt code pc machine id fetched) :
    fetched.exec.stack = machine.exec.stack := by
  obtain ⟨byte, executed, -, ran⟩ := runs.fetches
  exact congrArg Prod.fst (ends_of_ok ran Guest.ends_fetch).view

/-- What a machine runs is the opcode of the line, under a breakpoint or not. -/
theorem step_eq (runs : program.RunsAt code pc machine id fetched) {opcode : Opcode}
    (short : code.size ≤ 0xFFFF) (here : code[pc]? = some opcode.byte)
    (plain : opcode ≠ .breakpoint) (reentry : Reentry) :
    Guest.step reentry machine = Guest.executeByte reentry id (machine.codeOf id)
      (UInt32.ofNat pc) opcode.byte fetched := by
  obtain ⟨byte, executed, stands, ran⟩ := runs.fetches
  have ended := ends_of_ok ran Guest.ends_fetch
  have found : executed = opcode.byte := by
    rcases runs.bytes pc with same | ⟨marked, under, -⟩
    · obtain rfl : byte = opcode.byte := Option.some.inj (stands ▸ same.trans here)
      exact ended.plain fun marked => plain (Opcode.byte_inj.mp marked)
    · obtain rfl : byte = Opcode.breakpoint.byte := Option.some.inj (stands ▸ marked)
      exact Option.some.inj ((ended.marked rfl rfl).symm.trans (under.trans here))
  have small : (UInt32.ofNat pc).toNat = pc := by
    have inside := (Array.getElem?_eq_some_iff.mp here).1
    exact UInt32.toNat_ofNat_of_lt' (by rw [UInt32.size]; omega)
  have decoded : Bytecode.byte (machine.codeOf id) (UInt32.ofNat pc) = .ok byte := by
    rw [Bytecode.byte, small, stands]
  rw [Guest.step]
  simp only [bind, EStateM.bind, run_get, runs.method, runs.pc_eq]
  rw [← Machine.codeOf, decoded]
  simp only [Guest.ofDecode, pure, EStateM.pure, ran, found]

/-- A branch or switch that selects a label goes to the label's place. -/
theorem step_goesTo (finished : program.bytecode = .ok code) (short : code.size ≤ 0xFFFF)
    (runs : program.RunsAt code pc machine id fetched) {line : Line}
    (emits : program.Emits pc line) {label : Label} {rest : Stack}
    (goes : line.GoesTo (UInt32.ofNat pc) machine.exec.stack label rest) :
    ∃ target, program.Binds label target ∧ ∀ reentry, Guest.step reentry machine =
      .ok .next (fetched.modifyExec fun exec =>
        { exec with stack := rest, pc := UInt32.ofNat target }) := by
  have short' : (machine.codeOf id).size ≤ 0xFFFF := runs.size ▸ short
  obtain ⟨opcode, opens⟩ : ∃ opcode, line.opcode? = some opcode := by
    cases goes <;> exact ⟨_, rfl⟩
  obtain ⟨operands, written, here, behind⟩ := exists_operands runs.toHeldBy finished emits opens
  have plain : opcode ≠ .breakpoint := by
    rintro rfl
    cases goes <;> cases opens <;> next encodes => cases encodes #[] 0
  have steps := step_eq runs short here plain
  simp only [Guest.executeByte, Opcode.ofByte_byte] at steps
  rw [← stack_of_runsAt runs] at goes
  cases goes with
  | branch encodes taken =>
      cases opens
      obtain ⟨offset, decoded, target, binds, arrives⟩ := nearOffset_leads behind short' written
      refine ⟨target, binds, fun reentry => (steps reentry).trans ?_⟩
      rw [encodes]
      change (if (fetched.exec.stack.decideCondition _).1 = true then
        Guest.jumpBy id (UInt32.ofNat pc) _ else Guest.proceed _)
          (fetched.modifyStack fun _ => (fetched.exec.stack.decideCondition _).2) = _
      rw [if_pos taken]
      exact arrives ▸ Guest.jumpBy_of_ok decoded
  | jump encodes =>
      cases opens
      obtain ⟨offset, decoded, target, binds, arrives⟩ := nearOffset_leads behind short' written
      refine ⟨target, binds, fun reentry => (steps reentry).trans ?_⟩
      rw [encodes]
      exact arrives ▸ Guest.jumpBy_of_ok decoded
  | jumpSubroutine encodes =>
      cases opens
      obtain ⟨offset, decoded, target, binds, arrives⟩ := nearOffset_leads behind short' written
      refine ⟨target, binds, fun reentry => (steps reentry).trans ?_⟩
      rw [encodes]
      exact arrives ▸ Guest.jumpBy_of_ok decoded
  | farJump =>
      cases opens
      obtain ⟨offset, decoded, target, binds, arrives⟩ := farOffset_leads behind short' written
      refine ⟨target, binds, fun reentry => (steps reentry).trans ?_⟩
      exact arrives ▸ Guest.jumpBy_of_ok decoded
  | tableSwitch nonempty inside =>
      cases opens
      obtain ⟨offset, decoded, target, binds, arrives⟩ :=
        tableOffset_leads behind short' nonempty inside fetched.exec.stack.pop.1.toInt32 written
      refine ⟨target, binds, fun reentry => (steps reentry).trans ?_⟩
      exact arrives ▸ Guest.jumpBy_of_ok decoded
  | lookupSwitch =>
      cases opens
      obtain ⟨offset, decoded, target, binds, arrives⟩ :=
        lookupOffset_leads behind short' fetched.exec.stack.pop.1.toInt32 written
      refine ⟨target, binds, fun reentry => (steps reentry).trans ?_⟩
      exact arrives ▸ Guest.jumpBy_of_ok decoded

/-- Labels mean what the machine runs. A body is assembled exactly if the labels it uses
are bound, near offsets fit and the code is neither empty nor too long. In a machine that
runs its code, branches that are taken, table switches and lookup switches go to where the
label that they select was bound last. -/
theorem labels_mean_places (program : Program) :
    (program.Accepted ↔
      (∀ label, program.Uses label → ∃ pc, program.Binds label pc) ∧
      (∀ pc opcode label target, program.Emits pc (.branch opcode label) →
        program.Binds label target → NearFits pc target) ∧
      CodeBuilder.GoodLength (program.pcAfter program.body)) ∧
    (program.Accepted → ∃ code, program.bytecode = .ok code ∧
      ∀ pc machine id fetched line label rest,
        program.RunsAt code pc machine id fetched → program.Emits pc line →
        line.GoesTo (UInt32.ofNat pc) machine.exec.stack label rest →
        ∃ target, program.Binds label target ∧ ∀ reentry, Guest.step reentry machine =
          .ok .next (fetched.modifyExec fun exec =>
            { exec with stack := rest, pc := UInt32.ofNat target })) := by
  refine ⟨program.accepted_iff, fun accepted => ?_⟩
  obtain ⟨⟨code, finished, good⟩, -⟩ := program.accepted_iff_finish.mp accepted
  exact ⟨code, finished, fun pc machine id fetched line label rest runs emits goes =>
    step_goesTo finished good.2 runs emits goes⟩

/-- A body that selects its end by a table whose first key is below zero. -/
def choosing : Program where
  slots := 0
  body := [.bind "top", .tableSwitch (-1) "top" ["done", "top"], .bind "done", .op .returnVoid]

def choosingCode : Array UInt8 := #[0xAA, 0, 0, 0, 0, 0, 0, 0, 0xFF, 0xFF, 0xFF, 0xFF,
  0, 0, 0, 0, 0, 0, 0, 24, 0, 0, 0, 0, 0xB1]

theorem bytecode_choosing : choosing.bytecode = .ok choosingCode := by rfl

/-- A machine at the start of the body, with a key on its stack. -/
def chooser (key : Int32) : Machine :=
  (Machine.within choosingCode []).modifyStack fun stack => stack.push key.toUInt32

theorem labels_mean_places_table :
    choosing.Binds "done" 24 ∧ Guest.step (Bounds.reentry {}) (chooser (-1)) =
      .ok .next ((chooser (-1)).modifyExec fun exec =>
        { exec with stack := exec.stack.pop.2, pc := 24 }) := by
  have accepted : choosing.Accepted :=
    choosing.accepted_iff_finish.mpr ⟨⟨_, bytecode_choosing, by decide, by decide⟩, [], rfl⟩
  obtain ⟨code, finished, leads⟩ := (labels_mean_places choosing).2 accepted
  obtain rfl : choosingCode = code := Except.ok.inj (bytecode_choosing.symm.trans finished)
  have runs : choosing.RunsAt choosingCode 0 (chooser (-1)) ⟨⟨0⟩, 0⟩ (chooser (-1)) :=
    { size := rfl, bytes := fun _ => .inl rfl, method := rfl, pc_eq := rfl
      fetches := ⟨0xAA, 0xAA, rfl, rfl⟩ }
  have emits : choosing.Emits 0 (.tableSwitch (-1) "top" ["done", "top"]) :=
    ⟨[.bind "top"], [.bind "done", .op .returnVoid], rfl, rfl⟩
  obtain ⟨target, binds, steps⟩ :=
    leads 0 _ _ _ _ _ _ runs emits (.tableSwitch (by decide) (by decide))
  obtain rfl : target = 24 := Except.ok.inj ((place_iff choosing).mpr binds).symm
  exact ⟨binds, steps _⟩

end Program

end Assembler

end Jvm
