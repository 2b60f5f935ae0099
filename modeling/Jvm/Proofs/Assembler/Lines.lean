import Jvm.Assembler.Code

/-!
# What lines append

Every line of a method body appends pieces to the code. The branches and switches
append rooms for the offsets to their labels behind bytes that are known; all other
lines append bytes only. A label's place is where the code ends when it is bound.
-/

namespace Jvm.Assembler

/-!
## The layout of assembled code

Code under assembly is a row of pieces: bytes that stand, and room for offsets to
labels. Every line appends pieces to the row. Once all labels have places, filling in
the offsets turns the row into the code, piece by piece; it fails exactly when a
label has no place or an offset does not fit its room.
-/

/-- What stands in code under assembly: bytes, or room for the distance from an
instruction to a label. -/
inductive Piece where
  | bytes (values : List UInt8)
  | offset (instruction : Nat) (label : Label) (far : Bool)

namespace Piece

/-- The bytes of a distance, as two or four bytes hold it. -/
def distanceBytes (far : Bool) (distance : Int) : List UInt8 :=
  if far then Bytes.ofWord (Int32.ofInt distance).toUInt32
  else Bytes.ofShort (Int16.ofInt distance).toUInt16

/-- Whether a distance fits its room. -/
def Fits (far : Bool) (distance : Int) : Prop :=
  far = true ∨ -32768 ≤ distance ∧ distance ≤ 32767

instance (far : Bool) (distance : Int) : Decidable (Fits far distance) :=
  inferInstanceAs (Decidable (_ ∨ _))

/-- A piece before offsets are filled in. -/
def blank : Piece → List UInt8
  | .bytes values => values
  | .offset _ _ far => List.replicate (if far then 4 else 2) 0

/-- A piece with its offset filled in. -/
def filled (builder : CodeBuilder) : Piece → Except LoadError (List UInt8)
  | .bytes values => .ok values
  | .offset instruction label far => do
    let position ← builder.place label
    let distance : Int := (position : Int) - instruction
    if Fits far distance then pure (distanceBytes far distance)
    else throw (.verifyFailed (.branchTooFar distance))

/-- The offset that a piece at a position waits for. -/
def fixup? (position : Nat) : Piece → Option Fixup
  | .bytes _ => none
  | .offset instruction label far => some ⟨instruction, position, label, far⟩

/-- The offsets that pieces from a position on wait for. -/
def fixups : Nat → List Piece → List Fixup
  | _, [] => []
  | position, piece :: pieces =>
    (piece.fixup? position).toList ++ fixups (position + piece.blank.length) pieces

theorem fixups_append (position : Nat) (pieces more : List Piece) :
    fixups position (pieces ++ more) =
      fixups position pieces ++ fixups (position + (pieces.flatMap blank).length) more := by
  induction pieces generalizing position with
  | nil => rfl
  | cons piece pieces ih =>
      simp only [List.cons_append, fixups, ih, List.append_assoc, List.flatMap_cons,
        List.length_append, Nat.add_assoc]

theorem length_distanceBytes (far : Bool) (distance : Int) :
    (distanceBytes far distance).length = if far then 4 else 2 := by
  cases far <;> rfl

/-- A piece takes the same room before and after its offset is filled in. -/
theorem length_of_filled {builder : CodeBuilder} {piece : Piece} {values : List UInt8}
    (fills : piece.filled builder = .ok values) : values.length = piece.blank.length := by
  cases piece with
  | bytes given =>
      cases fills
      rfl
  | offset instruction label far =>
      simp only [filled] at fills
      cases placed : builder.place label with
      | error error =>
          rw [placed] at fills
          cases fills
      | ok position =>
          rw [placed] at fills
          simp only [bind, Except.bind] at fills
          split at fills
          · cases fills
            rw [length_distanceBytes, blank, List.length_replicate]
          · cases fills

end Piece

namespace CodeBuilder

open Piece

/-! ## Filling in offsets -/

/-- Overwriting replaces as many bytes as are written. -/
theorem overwrite_append (done old rest values : List UInt8)
    (same : old.length = values.length) :
    overwrite (done ++ old ++ rest).toArray done.length values =
      (done ++ values ++ rest).toArray := by
  induction values generalizing done old with
  | nil =>
      rw [List.length_eq_zero_iff.mp same]
      rfl
  | cons value values ih =>
      obtain ⟨first, old, rfl⟩ := List.exists_cons_of_length_eq_add_one same
      have step : (done ++ first :: old ++ rest).toArray.setIfInBounds done.length value =
          (done ++ [value] ++ old ++ rest).toArray := by
        simp
      have tail := ih (done ++ [value]) old (Nat.succ.inj same)
      rw [List.length_append, List.length_singleton] at tail
      rw [overwrite, step, tail]
      simp only [List.append_assoc, List.singleton_append]

/-- One offset is filled in where its piece stands. -/
theorem patch_eq (builder : CodeBuilder) (done rest : List UInt8) {piece : Piece} {fixup : Fixup}
    (open' : piece.fixup? done.length = some fixup) :
    builder.patch (done ++ piece.blank ++ rest).toArray fixup =
      (piece.filled builder).map fun values => (done ++ values ++ rest).toArray := by
  cases piece with
  | bytes _ => cases open'
  | offset instruction label far =>
      cases open'
      simp only [patch, filled]
      cases builder.place label with
      | error error => rfl
      | ok position =>
          have replaces := fun (values : List UInt8)
              (same : values.length = if far then 4 else 2) =>
            overwrite_append done (List.replicate (if far then 4 else 2) 0) rest values
              (by rw [List.length_replicate, same])
          simp only [bind, Except.bind, blank, Fits]
          cases far with
          | true =>
              simp only [if_true, true_or]
              exact congrArg Except.ok (replaces _ rfl)
          | false =>
              simp only [Bool.false_eq_true, if_false, false_or]
              split
              · exact congrArg Except.ok (replaces _ rfl)
              · rfl

/-- Filling in the offsets of a row fills in its pieces one by one. -/
theorem foldlM_patch (builder : CodeBuilder) (done : List UInt8) (pieces : List Piece) :
    (Piece.fixups done.length pieces).foldlM builder.patch (done ++ pieces.flatMap blank).toArray =
      (pieces.mapM (Piece.filled builder)).map fun parts => (done ++ parts.flatten).toArray := by
  induction pieces generalizing done with
  | nil => rfl
  | cons piece pieces ih =>
      rw [List.mapM_cons, List.flatMap_cons, Piece.fixups, List.foldlM_append,
        ← List.append_assoc]
      -- a piece of bytes waits for nothing; a room is filled in first
      have first : ((piece.fixup? done.length).toList).foldlM builder.patch
          (done ++ piece.blank ++ pieces.flatMap blank).toArray =
            (piece.filled builder).map fun values =>
              (done ++ values ++ pieces.flatMap blank).toArray := by
        cases open' : piece.fixup? done.length with
        | none =>
            cases piece with
            | bytes values => rfl
            | offset _ _ _ => cases open'
        | some fixup =>
            rw [← patch_eq builder done _ open']
            simp only [Option.toList, List.foldlM_cons, List.foldlM_nil, bind_pure]
      rw [first]
      cases fills : piece.filled builder with
      | error error => rfl
      | ok values =>
          have rest := ih (done ++ values)
          rw [List.length_append, length_of_filled fills] at rest
          simp only [Except.map, bind, Except.bind]
          rw [rest]
          cases pieces.mapM (Piece.filled builder) with
          | error error => rfl
          | ok parts => simp [Except.map, pure, Except.pure]

/-! ## Rows of pieces -/

/-- Whether code under assembly has been continued by a row of pieces. -/
structure Appends (before after : CodeBuilder) (pieces : List Piece) : Prop where
  code : after.code.toList = before.code.toList ++ pieces.flatMap blank
  fixups : after.fixups.toList = before.fixups.toList ++ Piece.fixups before.code.size pieces

namespace Appends

variable {first second third : CodeBuilder} {pieces more : List Piece}

protected theorem refl (builder : CodeBuilder) : builder.Appends builder [] :=
  ⟨(List.append_nil _).symm, (List.append_nil _).symm⟩

theorem size (appends : first.Appends second pieces) :
    second.code.size = first.code.size + (pieces.flatMap blank).length := by
  rw [← Array.length_toList, appends.code, List.length_append, Array.length_toList]

protected theorem trans (left : first.Appends second pieces) (right : second.Appends third more) :
    first.Appends third (pieces ++ more) where
  code := by rw [right.code, left.code, List.flatMap_append, List.append_assoc]
  fixups := by rw [right.fixups, left.fixups, fixups_append, left.size, List.append_assoc]

end Appends

/-- Code that is a row of pieces is patched piece by piece. -/
theorem Appends.patched_eq {first builder : CodeBuilder} {pieces : List Piece}
    (appends : first.Appends builder pieces) (noCode : first.code = #[])
    (noFixups : first.fixups = #[]) :
    builder.patched =
      (pieces.mapM (Piece.filled builder)).map fun parts => parts.flatten.toArray := by
  have whole := foldlM_patch builder [] pieces
  have code : builder.code = (pieces.flatMap blank).toArray := by
    rw [← builder.code.toArray_toList, appends.code, noCode]
    rfl
  have open' : builder.fixups.toList = Piece.fixups 0 pieces := by
    rw [appends.fixups, noFixups, noCode]
    rfl
  rw [patched, ← Array.foldlM_toList, open', code]
  exact whole

end CodeBuilder

/-! ## Lines -/

open CodeBuilder

/-- Zero bytes behind the opcode of a switch, up to a multiple of four. -/
def switchPadding (pc : Nat) : List UInt8 := List.replicate ((4 - (pc + 1) % 4) % 4) 0

/-- The pairs of a lookup switch as they are written. -/
def sortedPairs (pairs : List (Int32 × Label)) : List (Int32 × Label) :=
  pairs.mergeSort fun left right => left.1 ≤ right.1

namespace Line

/-- The labels that a line needs a place of. -/
def uses : Line → List Label
  | .bind _ => []
  | line => line.labels

/-- The pieces that a line appends at a pc. `other` stands for the bytes of lines that
wait for no label. -/
def pieces (pc : Nat) (other : List UInt8) : Line → List Piece
  | .branch opcode label => [.bytes [opcode.byte], .offset pc label false]
  | .farJump label => [.bytes [Opcode.gotoFar.byte], .offset pc label true]
  | .tableSwitch low fallback targets =>
    [.bytes [Opcode.tableSwitch.byte], .bytes (switchPadding pc), .offset pc fallback true,
      .bytes (Bytes.ofWord low.toUInt32),
      .bytes (Bytes.ofWord (low + Int32.ofNat targets.length - 1).toUInt32)] ++
      targets.map fun target => .offset pc target true
  | .lookupSwitch fallback pairs =>
    [.bytes [Opcode.lookupSwitch.byte], .bytes (switchPadding pc), .offset pc fallback true,
      .bytes (Bytes.ofWord (UInt32.ofNat pairs.length))] ++
      (sortedPairs pairs).flatMap fun pair =>
        [.bytes (Bytes.ofWord pair.1.toUInt32), .offset pc pair.2 true]
  | _ => [.bytes other]

/-- The places that a line gives to labels at a pc. -/
def bindings (pc : Nat) : Line → List (Label × Nat)
  | .bind label => [(label, pc)]
  | _ => []

/-- The labels of the handler that a line adds. -/
def handler? : Line → Option (Label × Label × Label)
  | .handler start finish target _ => some (start, finish, target)
  | _ => none

/-- The source line that a line begins. -/
def sourceLine? : Line → Option UInt16
  | .sourceLine line => some line
  | _ => none

end Line

/-- The labels of a handler that waits for them. -/
def PendingHandler.labels (handler : PendingHandler) : Label × Label × Label :=
  (handler.start, handler.finish, handler.target)

namespace CodeBuilder

open Piece

/-- Whether pieces have been appended, and labels, handlers and source lines are as they
were. -/
structure Extends (before after : CodeBuilder) (pieces : List Piece) : Prop
    extends Appends before after pieces where
  bindings : after.bindings = before.bindings
  handlers : after.handlers = before.handlers
  lines : after.lines = before.lines

/-- Whether code under assembly has been continued by bytes that wait for no label. -/
def Continues (before after : CodeBuilder) : Prop :=
  ∃ values, before.Extends after [.bytes values]

section

variable {first second third : CodeBuilder} {pieces more : List Piece}

protected theorem Extends.refl (builder : CodeBuilder) : builder.Extends builder [] :=
  ⟨.refl builder, rfl, rfl, rfl⟩

protected theorem Extends.trans (left : first.Extends second pieces)
    (right : second.Extends third more) : first.Extends third (pieces ++ more) :=
  ⟨left.toAppends.trans right.toAppends, right.bindings.trans left.bindings,
    right.handlers.trans left.handlers, right.lines.trans left.lines⟩

/-- The sizes of the frame do not matter. -/
theorem Continues.refl (code : second.code = first.code) (fixups : second.fixups = first.fixups)
    (bindings : second.bindings = first.bindings) (handlers : second.handlers = first.handlers)
    (lines : second.lines = first.lines) : first.Continues second :=
  ⟨[], ⟨code ▸ (List.append_nil _).symm, fixups ▸ (List.append_nil _).symm⟩, bindings, handlers,
    lines⟩

protected theorem Continues.trans (left : first.Continues second)
    (right : second.Continues third) : first.Continues third := by
  obtain ⟨early, extends'⟩ := left
  obtain ⟨late, extends''⟩ := right
  have both := extends'.trans extends''
  refine ⟨early ++ late, ⟨?_, both.fixups⟩, both.bindings, both.handlers, both.lines⟩
  rw [both.code]
  simp [blank]

end

variable (builder : CodeBuilder)

theorem extends_bytes (values : List UInt8) :
    builder.Extends (builder.bytes values) [.bytes values] where
  code := by simp [bytes, blank]
  fixups := (List.append_nil _).symm
  bindings := rfl
  handlers := rfl
  lines := rfl

theorem extends_byte (value : UInt8) : builder.Extends (builder.byte value) [.bytes [value]] where
  code := by simp [byte, blank]
  fixups := (List.append_nil _).symm
  bindings := rfl
  handlers := rfl
  lines := rfl

theorem extends_reserve (instruction : Nat) (label : Label) (far : Bool) :
    builder.Extends (builder.reserve instruction label far)
      [.offset instruction label far] where
  code := by cases far <;> simp [reserve, word, short, bytes, blank] <;> rfl
  fixups := by cases far <;> simp [reserve, word, short, bytes, Piece.fixups, Piece.fixup?]
  bindings := by cases far <;> rfl
  handlers := by cases far <;> rfl
  lines := by cases far <;> rfl

theorem continues_bytes (values : List UInt8) : builder.Continues (builder.bytes values) :=
  ⟨values, builder.extends_bytes values⟩

theorem continues_byte (value : UInt8) : builder.Continues (builder.byte value) :=
  ⟨[value], builder.extends_byte value⟩

theorem continues_withIndex (opcode : Opcode) (index : UInt16) :
    builder.Continues (builder.withIndex opcode index) :=
  (builder.continues_byte _).trans (continues_bytes _ _)

theorem continues_loadConstant (index : UInt16) :
    builder.Continues (builder.loadConstant index) := by
  unfold loadConstant
  split
  · exact (builder.continues_byte _).trans (continues_byte _ _)
  · exact builder.continues_withIndex _ _

theorem continues_touch (index width : UInt16) : builder.Continues (builder.touch index width) :=
  .refl rfl rfl rfl rfl rfl

theorem continues_access (base shortBase : Opcode) (index width : UInt16) :
    builder.Continues (builder.access base shortBase index width) := by
  refine (builder.continues_touch index width).trans ?_
  unfold access
  dsimp only
  split
  · exact continues_byte _ _
  · split
    · exact (continues_byte _ _).trans (continues_byte _ _)
    · exact ((continues_byte _ _).trans (continues_byte _ _)).trans (continues_bytes _ _)

theorem continues_increment (index : UInt16) (delta : Int16) :
    builder.Continues (builder.increment index delta) := by
  refine (builder.continues_touch index 1).trans ?_
  unfold increment
  dsimp only
  split
  · exact ((continues_byte _ _).trans (continues_byte _ _)).trans (continues_byte _ _)
  · exact (((continues_byte _ _).trans (continues_byte _ _)).trans
      (continues_bytes _ _)).trans (continues_bytes _ _)

/-- A fold of steps that append pieces appends all of them. -/
theorem extends_foldl {α : Type} {step : CodeBuilder → α → CodeBuilder} {pieces : α → List Piece}
    (each : ∀ builder item, Extends builder (step builder item) (pieces item)) (items : List α) :
    builder.Extends (items.foldl step builder) (items.flatMap pieces) := by
  induction items generalizing builder with
  | nil => exact .refl builder
  | cons item items ih => exact (each builder item).trans (ih (step builder item))

/-- Switches differ in what stands behind their default. -/
theorem extends_switch (opcode : Opcode) (fallback : Label) :
    builder.Extends ((builder.op opcode).align.reserve builder.code.size fallback true)
      [.bytes [opcode.byte], .bytes (switchPadding builder.code.size),
        .offset builder.code.size fallback true] := by
  have aligned : (builder.op opcode).align =
      (builder.op opcode).bytes (switchPadding builder.code.size) := by
    simp only [align, switchPadding, op, byte, Array.size_push]
  rw [aligned]
  exact ((builder.extends_byte _).trans (extends_bytes _ _)).trans (extends_reserve _ _ _ _)

theorem extends_tableSwitch (low : Int32) (fallback : Label) (targets : List Label) :
    builder.Extends (builder.tableSwitch low fallback targets)
      ((Line.tableSwitch low fallback targets).pieces builder.code.size []) := by
  have head := ((builder.extends_switch .tableSwitch fallback).trans
    (extends_bytes _ (Bytes.ofWord low.toUInt32))).trans
      (extends_bytes _ (Bytes.ofWord (low + Int32.ofNat targets.length - 1).toUInt32))
  have rows := head.trans (extends_foldl _
    (fun other target => extends_reserve other builder.code.size target true) targets)
  rw [← List.map_eq_flatMap] at rows
  exact rows

theorem extends_lookupSwitch (fallback : Label) (pairs : List (Int32 × Label)) :
    builder.Extends (builder.lookupSwitch fallback pairs)
      ((Line.lookupSwitch fallback pairs).pieces builder.code.size []) := by
  have head := (builder.extends_switch .lookupSwitch fallback).trans
    (extends_bytes _ (Bytes.ofWord (UInt32.ofNat pairs.length)))
  exact head.trans (extends_foldl _ (fun other (pair : Int32 × Label) =>
    (extends_bytes other (Bytes.ofWord pair.1.toUInt32)).trans
      (extends_reserve _ builder.code.size pair.2 true)) (sortedPairs pairs))

end CodeBuilder

/-! ## Lines -/

/-- What a line does to code under assembly. -/
structure Line.Writes (line : Line) (before after : CodeBuilder) : Prop where
  appends : ∃ other, before.Appends after (line.pieces before.code.size other)
  bindings : after.bindings = line.bindings before.code.size ++ before.bindings
  handlers : ∃ added, after.handlers.toList = before.handlers.toList ++ added ∧
    added.map PendingHandler.labels = line.handler?.toList
  lines : after.lines.toList =
    before.lines.toList ++ line.sourceLine?.toList.map (UInt16.ofNat before.code.size, ·)

section

variable {builder : CodeBuilder}

/-- Whether numbering constants for a line continues the code by bytes alone. -/
def Plain (builder : CodeBuilder) (numbering : Numbering CodeBuilder) : Prop :=
  ∀ pool, builder.Continues (numbering.run pool).1

theorem Plain.pure {after : CodeBuilder} (continues : builder.Continues after) :
    Plain builder (pure after) := fun _ => continues

theorem Plain.bind {α : Type} {step : Numbering α} {next : α → Numbering CodeBuilder}
    (rest : ∀ value, Plain builder (next value)) : Plain builder (step >>= next) :=
  fun pool => rest (step.run pool).1 (step.run pool).2

theorem Plain.map {step : Numbering CodeBuilder} {change : CodeBuilder → CodeBuilder}
    (plain : Plain builder step) (continues : ∀ other, Continues other (change other)) :
    Plain builder (step >>= fun other => Pure.pure (change other)) :=
  fun pool => (plain pool).trans (continues _)

theorem Plain.ite {condition : Prop} [Decidable condition] {left right : Numbering CodeBuilder}
    (yes : Plain builder left) (no : Plain builder right) :
    Plain builder (if condition then left else right) := by
  split
  · exact yes
  · exact no

theorem plain_intConstant (value : Int32) : Plain builder (intConstant builder value) :=
  .ite (.pure (builder.continues_byte _)) <|
    .ite (.pure ((builder.continues_byte _).trans (continues_byte _ _))) <|
      .ite (.pure (builder.continues_withIndex _ _)) <|
        .bind fun index => .pure (builder.continues_loadConstant index)

theorem plain_longConstant (value : Int64) : Plain builder (longConstant builder value) :=
  .ite (.pure (builder.continues_byte _)) <| .ite (.pure (builder.continues_byte _)) <|
    .bind fun index => .pure (builder.continues_withIndex _ index)

theorem plain_floatConstant (bits : UInt32) : Plain builder (floatConstant builder bits) :=
  .ite (.pure (builder.continues_byte _)) <| .ite (.pure (builder.continues_byte _)) <|
    .ite (.pure (builder.continues_byte _)) <|
      .bind fun index => .pure (builder.continues_loadConstant index)

theorem plain_doubleConstant (bits : UInt64) : Plain builder (doubleConstant builder bits) :=
  .ite (.pure (builder.continues_byte _)) <| .ite (.pure (builder.continues_byte _)) <|
    .bind fun index => .pure (builder.continues_withIndex _ index)

theorem plain_classOperand (opcode : Opcode) (name : String) :
    Plain builder (classOperand builder opcode name) :=
  .bind fun index => .pure (builder.continues_withIndex opcode index)

theorem plain_memberOperand (opcode : Opcode) (make : UInt16 → UInt16 → Constant)
    (owner name descriptor : String) :
    Plain builder (memberOperand builder opcode make owner name descriptor) :=
  .bind fun index => .pure (builder.continues_withIndex opcode index)

namespace Line

/-- A line that only extends the code writes its pieces. -/
theorem writes_of_extends {line : Line} {after : CodeBuilder} (other : List UInt8)
    (extends' : builder.Extends after (line.pieces builder.code.size other))
    (unbound : ∀ pc, line.bindings pc = []) (noHandler : line.handler? = none)
    (noLine : line.sourceLine? = none) : line.Writes builder after where
  appends := ⟨other, extends'.toAppends⟩
  bindings := by rw [extends'.bindings, unbound, List.nil_append]
  handlers := ⟨[], by rw [extends'.handlers, List.append_nil], by rw [noHandler]; rfl⟩
  lines := by rw [extends'.lines, noLine]; exact (List.append_nil _).symm

/-- A line that waits for no label writes bytes. -/
theorem writes_of_plain {line : Line} {numbering : Numbering CodeBuilder}
    (plain : Plain builder numbering) (pool : PoolBuilder)
    (pieces : ∀ pc other, line.pieces pc other = [.bytes other])
    (unbound : ∀ pc, line.bindings pc = []) (noHandler : line.handler? = none)
    (noLine : line.sourceLine? = none) : line.Writes builder (numbering.run pool).1 := by
  obtain ⟨values, extends'⟩ := plain pool
  exact writes_of_extends values ((pieces _ values).symm ▸ extends') unbound noHandler noLine

end Line

/-- Adding a line writes it. -/
theorem writes_line (builder : CodeBuilder) (written : Line) (pool : PoolBuilder) :
    written.Writes builder ((line builder written).run pool).1 := by
  have plain {numbering : Numbering CodeBuilder} (plain : Plain builder numbering) :=
    @Line.writes_of_plain builder written _ plain pool
  cases written with
  | bind label =>
      exact ⟨⟨[], (List.append_nil _).symm, (List.append_nil _).symm⟩, rfl,
        ⟨[], (List.append_nil _).symm, rfl⟩, (List.append_nil _).symm⟩
  | sourceLine line =>
      exact ⟨⟨[], (List.append_nil _).symm, (List.append_nil _).symm⟩, rfl,
        ⟨[], (List.append_nil _).symm, rfl⟩, Array.toList_push⟩
  | branch opcode label =>
      exact Line.writes_of_extends [] ((builder.extends_byte _).trans
        (extends_reserve (builder.op opcode) builder.code.size label false)) (fun _ => rfl) rfl rfl
  | farJump label =>
      exact Line.writes_of_extends [] ((builder.extends_byte _).trans
        (extends_reserve (builder.op .gotoFar) builder.code.size label true)) (fun _ => rfl) rfl rfl
  | tableSwitch low fallback targets =>
      exact Line.writes_of_extends [] (builder.extends_tableSwitch low fallback targets)
        (fun _ => rfl) rfl rfl
  | lookupSwitch fallback pairs =>
      exact Line.writes_of_extends [] (builder.extends_lookupSwitch fallback pairs)
        (fun _ => rfl) rfl rfl
  | handler start finish target catchType =>
      refine ⟨⟨[], ?_⟩, ?_, ?_, ?_⟩
      · cases catchType <;> exact ⟨(List.append_nil _).symm, (List.append_nil _).symm⟩
      · cases catchType <;> rfl
      · cases catchType <;> exact ⟨_, Array.toList_push, rfl⟩
      · cases catchType <;> exact (List.append_nil _).symm
  | op _ | rawByte _ =>
      exact plain (.pure (builder.continues_byte _)) (fun _ _ => rfl) (fun _ => rfl) rfl rfl
  | rawShort _ =>
      exact plain (.pure (builder.continues_bytes _)) (fun _ _ => rfl) (fun _ => rfl) rfl rfl
  | maxStack _ =>
      exact plain (.pure (.refl rfl rfl rfl rfl rfl)) (fun _ _ => rfl) (fun _ => rfl) rfl rfl
  | int value => exact plain (plain_intConstant value) (fun _ _ => rfl) (fun _ => rfl) rfl rfl
  | long value => exact plain (plain_longConstant value) (fun _ _ => rfl) (fun _ => rfl) rfl rfl
  | float bits => exact plain (plain_floatConstant bits) (fun _ _ => rfl) (fun _ => rfl) rfl rfl
  | double bits => exact plain (plain_doubleConstant bits) (fun _ _ => rfl) (fun _ => rfl) rfl rfl
  | string _ | classConstant _ =>
      exact plain (.bind fun index => .pure (builder.continues_loadConstant index))
        (fun _ _ => rfl) (fun _ => rfl) rfl rfl
  | load _ _ | store _ _ =>
      exact plain (.pure (builder.continues_access _ _ _ _)) (fun _ _ => rfl) (fun _ => rfl) rfl rfl
  | increment index delta =>
      exact plain (.pure (builder.continues_increment index delta)) (fun _ _ => rfl)
        (fun _ => rfl) rfl rfl
  | newArray _ =>
      exact plain (.pure ((builder.continues_byte _).trans (continues_byte _ _)))
        (fun _ _ => rfl) (fun _ => rfl) rfl rfl
  | newObject name | newRefArray name | checkCast name | instanceOf name =>
      exact plain (plain_classOperand _ name) (fun _ _ => rfl) (fun _ => rfl) rfl rfl
  | newMultiArray name dimensions =>
      exact plain ((plain_classOperand .multiANewArray name).map
        fun other => other.continues_byte dimensions) (fun _ _ => rfl) (fun _ => rfl) rfl rfl
  | getStatic owner name descriptor | putStatic owner name descriptor
  | getField owner name descriptor | putField owner name descriptor
  | invokeVirtual owner name descriptor | invokeSpecial owner name descriptor
  | invokeStatic owner name descriptor =>
      exact plain (plain_memberOperand _ _ owner name descriptor) (fun _ _ => rfl)
        (fun _ => rfl) rfl rfl
  | invokeInterface owner name descriptor =>
      exact plain ((plain_memberOperand .invokeInterface .interfaceMethodRef owner name
        descriptor).map fun other => (other.continues_byte _).trans (continues_byte _ 0))
        (fun _ _ => rfl) (fun _ => rfl) rfl rfl

end

end Jvm.Assembler
