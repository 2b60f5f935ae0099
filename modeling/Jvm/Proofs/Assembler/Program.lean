import Mathlib.Data.List.Forall2
import Mathlib.Data.List.Induction
import Jvm.Proofs.Assembler.Lines
import Jvm.Bytes

/-!
# Method bodies

A method body is assembled line by line. Its lines start where the code of the lines
before them ends, its labels have the places where they were bound last, and its code
is the row of the pieces of all lines with every offset filled in. A body is accepted
exactly when all labels it uses are bound, all near offsets fit, and the code is
neither empty nor too long.
-/

namespace Jvm

/-- A list of steps succeeds with the results of its steps. -/
theorem mapM_eq_ok_iff {ε α β : Type} {step : α → Except ε β} {items : List α}
    {results : List β} :
    items.mapM step = .ok results ↔ List.Forall₂ (fun item result => step item = .ok result) items results := by
  induction items generalizing results with
  | nil => cases results <;> simp [pure, Except.pure]
  | cons item items ih =>
      rw [List.mapM_cons]
      cases ran : step item with
      | error error => cases results <;> simp [bind, Except.bind, ran]
      | ok result =>
          cases rest : items.mapM step with
          | error error => cases results <;> simp [bind, Except.bind, ran, ← ih, rest]
          | ok more =>
              cases results <;>
                simp [bind, Except.bind, pure, Except.pure, ran, ← ih, rest]

/-- Two lists of steps succeed together with the results of both. -/
theorem mapM_append_eq_ok {ε α β : Type} {step : α → Except ε β} {items more : List α}
    {results : List β} (ran : (items ++ more).mapM step = .ok results) :
    ∃ left right, items.mapM step = .ok left ∧ more.mapM step = .ok right ∧
      results = left ++ right := by
  rw [List.mapM_append] at ran
  cases first : items.mapM step with
  | error error =>
      rw [first] at ran
      cases ran
  | ok left =>
      cases second : more.mapM step with
      | error error =>
          rw [first, second] at ran
          cases ran
      | ok right =>
          rw [first, second] at ran
          cases ran
          exact ⟨left, right, rfl, rfl, rfl⟩

/-- A list of steps succeeds if each of them does. -/
theorem exists_mapM_eq_ok {ε α β : Type} {step : α → Except ε β} {items : List α}
    (each : ∀ item ∈ items, ∃ result, step item = .ok result) :
    ∃ results, items.mapM step = .ok results := by
  induction items with
  | nil => exact ⟨[], rfl⟩
  | cons item items ih =>
      obtain ⟨result, ran⟩ := each item (.head _)
      obtain ⟨results, rest⟩ := ih fun other member => each other (.tail _ member)
      exact ⟨result :: results, mapM_eq_ok_iff.mpr (.cons ran (mapM_eq_ok_iff.mp rest))⟩

/-- In a list of steps that succeeds each step does. -/
theorem exists_ok_of_mapM {ε α β : Type} {step : α → Except ε β} {items : List α}
    {results : List β} (ran : items.mapM step = .ok results) {item : α} (member : item ∈ items) :
    ∃ result, step item = .ok result := by
  have each := mapM_eq_ok_iff.mp ran
  induction each with
  | nil => cases member
  | cons first rest ih =>
      rcases List.mem_cons.mp member with rfl | later
      · exact ⟨_, first⟩
      · exact ih (mapM_eq_ok_iff.mpr rest) later

namespace Assembler

namespace CodeBuilder

/-- The numbers of the names of a code attribute and of its line table, if it has one. -/
def attributeNames (builder : CodeBuilder) : Numbering (UInt16 × Option UInt16) := do
  let name ← Numbering.utf8 "Code"
  let linesName ←
    if builder.lines.isEmpty then pure none
    else some <$> (Numbering.utf8 "LineNumberTable" : Numbering UInt16)
  pure (name, linesName)

/-- The body of a code attribute. -/
def attributeBody (builder : CodeBuilder) (code : Array UInt8) (handlers : List (List UInt8))
    (linesName : Option UInt16) : Array UInt8 :=
  ((Bytes.ofShort builder.maxStack ++ Bytes.ofShort builder.maxLocals ++
    Bytes.ofWord (UInt32.ofNat code.size)).toArray ++ code ++
    Bytes.ofShort (UInt16.ofNat builder.handlers.size)) ++ handlers.flatten ++
    builder.lineBytes linesName

/-- Whether a code attribute can hold so many bytes of code. -/
def GoodLength (size : Nat) : Prop := 0 < size ∧ size ≤ 0xFFFF

/-- Code of a good length becomes an attribute unless a handler misses a label. -/
theorem finish_of_patched (builder : CodeBuilder) (pool : PoolBuilder) {code : Array UInt8}
    (patched : builder.patched = .ok code) (good : GoodLength code.size) :
    builder.finish.run.run pool =
      let ((name, linesName), pool) := builder.attributeNames.run pool
      match builder.handlers.toList.mapM builder.handlerBytes with
      | .error error => (.error error, pool)
      | .ok handlers =>
        let body := builder.attributeBody code handlers linesName
        (.ok ((Bytes.ofShort name ++ Bytes.ofWord (UInt32.ofNat body.size)).toArray ++ body),
          pool) := by
  have accepted : ¬(code.isEmpty = true ∨ 0xFFFF < code.size) := by
    rw [Array.isEmpty_iff_size_eq_zero]
    have := good.1
    have := good.2
    omega
  have opened {α : Type} (next : Array UInt8 → ExceptT LoadError Numbering α) :
      ((liftM builder.patched : ExceptT LoadError Numbering (Array UInt8)) >>= next).run =
        (next code).run := by
    rw [patched]
    rfl
  rw [finish, opened]
  dsimp only
  rw [if_neg accepted]
  cases builder.handlers.toList.mapM builder.handlerBytes <;>
    cases none : builder.lines.isEmpty <;> simp [none, attributeNames] <;> rfl

theorem finish_of_badLength (builder : CodeBuilder) (pool : PoolBuilder) {code : Array UInt8}
    (patched : builder.patched = .ok code) (bad : ¬GoodLength code.size) :
    builder.finish.run.run pool = (.error (.verifyFailed (.badCodeLength code.size)), pool) := by
  have refused : code.isEmpty = true ∨ 0xFFFF < code.size := by
    rw [Array.isEmpty_iff_size_eq_zero]
    unfold GoodLength at bad
    omega
  rw [finish, patched]
  exact congrArg (fun step : ExceptT LoadError Numbering _ => step.run.run pool) (if_pos refused)

theorem finish_of_unpatched (builder : CodeBuilder) (pool : PoolBuilder) {error : LoadError}
    (patched : builder.patched = .error error) :
    builder.finish.run.run pool = (.error error, pool) := by
  rw [finish, patched]
  rfl

/-- A handler is written if its labels have places. -/
theorem exists_handlerBytes_iff (builder : CodeBuilder) (handler : PendingHandler) :
    (∃ bytes, builder.handlerBytes handler = .ok bytes) ↔
      ∀ label ∈ [handler.start, handler.finish, handler.target],
        ∃ pc, builder.place label = .ok pc := by
  simp only [handlerBytes, List.forall_mem_cons]
  cases builder.place handler.start <;> cases builder.place handler.finish <;>
    cases builder.place handler.target <;> simp [bind, Except.bind, pure, Except.pure]

end CodeBuilder

/-- A method body to assemble: the slots of its arguments, its lines, and the constants
that are numbered before it. -/
structure Program where
  slots : UInt16
  body : List Line
  pool : PoolBuilder := {}

namespace Program

/-- The code and the constants after some lines. -/
def after (program : Program) (lines : List Line) : CodeBuilder × PoolBuilder :=
  (lines.foldlM line (.ofBody program.slots program.body) : Numbering CodeBuilder).run program.pool

/-- Where code ends after some lines. -/
def pcAfter (program : Program) (lines : List Line) : Nat := (program.after lines).1.code.size

/-- Whether some lines contain a line at a pc. -/
def Holds (program : Program) (lines : List Line) (pc : Nat) (line : Line) : Prop :=
  ∃ before rest, lines = before ++ line :: rest ∧ program.pcAfter before = pc

/-- Whether some lines bind a label, at a pc for the last time. -/
def BindsIn (program : Program) (lines : List Line) (label : Label) (pc : Nat) : Prop :=
  ∃ before rest, lines = before ++ .bind label :: rest ∧ .bind label ∉ rest ∧
    program.pcAfter before = pc

/-- Whether the body has a line at a pc. -/
def Emits (program : Program) (pc : Nat) (line : Line) : Prop :=
  program.Holds program.body pc line

/-- Whether a pc is the place of a label: where it was bound last. -/
def Binds (program : Program) (label : Label) (pc : Nat) : Prop :=
  program.BindsIn program.body label pc

/-- Whether a line other than its bindings mentions a label. -/
def Uses (program : Program) (label : Label) : Prop :=
  ∃ line ∈ program.body, label ∈ line.uses

/-- The code with every line, before offsets are filled in. -/
def assembled (program : Program) : CodeBuilder := (program.after program.body).1

/-- The finished code. -/
def bytecode (program : Program) : Except LoadError (Array UInt8) := program.assembled.patched

/-- Whether the body is assembled into a code attribute. -/
def Accepted (program : Program) : Prop :=
  ∃ bytes pool,
    (codeAttribute program.slots program.body).run.run program.pool = (.ok bytes, pool)

variable (program : Program)

/-- A body is finished behind its last line. -/
theorem run_codeAttribute :
    (codeAttribute program.slots program.body).run.run program.pool =
      program.assembled.finish.run.run (program.after program.body).2 := rfl

/-! ## Lines and their pieces -/

theorem after_concat (lines : List Line) (last : Line) :
    program.after (lines ++ [last]) =
      (line (program.after lines).1 last).run (program.after lines).2 := by
  simp only [after, List.foldlM_append, List.foldlM_cons, List.foldlM_nil, bind_pure]
  rfl

theorem writes_concat (lines : List Line) (last : Line) :
    last.Writes (program.after lines).1 (program.after (lines ++ [last])).1 := by
  rw [after_concat]
  exact writes_line _ last _

/-- Further lines append further pieces. -/
theorem exists_appends (lines more : List Line) :
    ∃ pieces, (program.after lines).1.Appends (program.after (lines ++ more)).1 pieces := by
  induction more using List.reverseRecOn with
  | nil => exact ⟨[], by rw [List.append_nil]; exact .refl _⟩
  | append_singleton more last ih =>
      obtain ⟨pieces, appends⟩ := ih
      obtain ⟨other, written⟩ := (program.writes_concat (lines ++ more) last).appends
      rw [← List.append_assoc]
      exact ⟨_, appends.trans written⟩

theorem pcAfter_le (lines more : List Line) :
    program.pcAfter lines ≤ program.pcAfter (lines ++ more) := by
  obtain ⟨pieces, appends⟩ := program.exists_appends lines more
  exact Nat.le.intro appends.size.symm

/-- No line starts inside another one. -/
theorem outside_of_holds {before rest : List Line} {inner : Line} {index : Nat} {other : Line}
    (holds : program.Holds (before ++ inner :: rest) index other) :
    index ≤ program.pcAfter before ∨ program.pcAfter (before ++ [inner]) ≤ index := by
  obtain ⟨before', rest', split, rfl⟩ := holds
  rcases List.append_eq_append_iff.mp split with ⟨more, rfl, follows⟩ | ⟨more, rfl, -⟩
  · cases more with
    | nil => exact .inl (Nat.le_of_eq (congrArg _ (List.append_nil before)))
    | cons next more =>
        obtain ⟨rfl, -⟩ := List.cons.inj follows
        exact .inr (List.append_cons before inner more ▸ program.pcAfter_le _ more)
  · exact .inl (program.pcAfter_le before' more)

/-- Every piece of the code is a piece of a line. -/
theorem exists_line_of_piece (lines : List Line) :
    ∃ pieces, (program.after []).1.Appends (program.after lines).1 pieces ∧
      ∀ piece ∈ pieces, ∃ pc emitted other,
        program.Holds lines pc emitted ∧ piece ∈ emitted.pieces pc other := by
  induction lines using List.reverseRecOn with
  | nil => exact ⟨[], .refl _, nofun⟩
  | append_singleton lines last ih =>
      obtain ⟨pieces, appends, lined⟩ := ih
      obtain ⟨other, written⟩ := (program.writes_concat lines last).appends
      refine ⟨_, appends.trans written, fun piece member => ?_⟩
      rcases List.mem_append.mp member with member | member
      · obtain ⟨pc, emitted, other, ⟨before, rest, split, start⟩, within⟩ := lined piece member
        refine ⟨pc, emitted, other, ⟨before, rest ++ [last], ?_, start⟩, within⟩
        rw [split, List.append_assoc, List.cons_append]
      · exact ⟨_, last, other, ⟨lines, [], rfl, rfl⟩, member⟩

/-! ## Places of labels -/

/-- A list ends with its last item or contains what it did before. -/
theorem append_cons_eq_concat {α : Type} {before rest items : List α} {item last : α}
    (split : items ++ [last] = before ++ item :: rest) :
    (rest = [] ∧ before = items ∧ item = last) ∨
      ∃ fewer, rest = fewer ++ [last] ∧ items = before ++ item :: fewer := by
  rcases List.eq_nil_or_concat rest with rfl | ⟨fewer, final, rfl⟩
  · obtain ⟨rfl, equal⟩ := List.append_inj' split rfl
    exact .inl ⟨rfl, rfl, (List.cons.inj equal).1.symm⟩
  · rw [List.concat_eq_append, ← List.cons_append, ← List.append_assoc] at split
    obtain ⟨rfl, equal⟩ := List.append_inj' split rfl
    exact .inr ⟨fewer, by rw [List.concat_eq_append, (List.cons.inj equal).1], rfl⟩

/-- A label is found at the place where it was bound last. -/
theorem lookup_bindings_iff (lines : List Line) (label : Label) (pc : Nat) :
    (program.after lines).1.bindings.lookup label = some pc ↔ program.BindsIn lines label pc := by
  induction lines using List.reverseRecOn with
  | nil =>
      refine ⟨nofun, ?_⟩
      rintro ⟨before, rest, split, -⟩
      cases before <;> cases split
  | append_singleton lines last ih =>
      rw [(program.writes_concat lines last).bindings]
      by_cases bound : last = .bind label
      · subst bound
        simp only [Line.bindings, List.singleton_append, List.lookup_cons, BEq.rfl]
        constructor
        · rintro ⟨⟩
          exact ⟨lines, [], rfl, nofun, rfl⟩
        · rintro ⟨before, rest, split, unbound, rfl⟩
          rcases append_cons_eq_concat split with ⟨-, rfl, -⟩ | ⟨fewer, rfl, -⟩
          · rfl
          · exact absurd (List.mem_append_right fewer (.head _)) unbound
      · have skipped : (last.bindings (program.pcAfter lines) ++
            (program.after lines).1.bindings).lookup label =
              (program.after lines).1.bindings.lookup label := by
          cases last with
          | bind other =>
              have differs : (label == other) = false :=
                beq_eq_false_iff_ne.mpr fun same => bound (same ▸ rfl)
              simp only [Line.bindings, List.singleton_append, List.lookup_cons, differs]
          | _ => rfl
        rw [show (program.after lines).1.code.size = program.pcAfter lines from rfl, skipped, ih]
        constructor
        · rintro ⟨before, rest, rfl, unbound, start⟩
          refine ⟨before, rest ++ [last], by rw [List.append_assoc, List.cons_append], ?_, start⟩
          intro member
          rcases List.mem_append.mp member with member | member
          · exact unbound member
          · exact bound (List.mem_singleton.mp member).symm
        · rintro ⟨before, rest, split, unbound, start⟩
          rcases append_cons_eq_concat split with ⟨-, -, rfl⟩ | ⟨fewer, rfl, rfl⟩
          · exact absurd rfl bound
          · exact ⟨before, fewer, rfl, fun member => unbound (List.mem_append_left _ member), start⟩

theorem place_iff {label : Label} {pc : Nat} :
    program.assembled.place label = .ok pc ↔ program.Binds label pc := by
  rw [Binds, ← lookup_bindings_iff]
  simp only [CodeBuilder.place, assembled]
  split
  · next position found => simp [found]
  · next missing => simp [missing]

/-- The handlers that wait for labels are those of the lines. -/
theorem handlers_eq (lines : List Line) :
    (program.after lines).1.handlers.toList.map PendingHandler.labels =
      lines.filterMap Line.handler? := by
  induction lines using List.reverseRecOn with
  | nil => rfl
  | append_singleton lines last ih =>
      obtain ⟨added, whole, labels⟩ := (program.writes_concat lines last).handlers
      rw [whole, List.map_append, ih, labels, List.filterMap_append]
      cases last <;> rfl

/-- Lines from some on that begin source lines, with their pcs. -/
def marksFrom (program : Program) (before : List Line) : List Line → List (Nat × UInt16)
  | [] => []
  | line :: rest =>
    line.sourceLine?.toList.map (program.pcAfter before, ·) ++
      program.marksFrom (before ++ [line]) rest

/-- The source lines of the body, with the pcs where they begin. -/
def marks (program : Program) : List (Nat × UInt16) := program.marksFrom [] program.body

theorem lines_eq (before rest : List Line) :
    (program.after (before ++ rest)).1.lines.toList = (program.after before).1.lines.toList ++
      (program.marksFrom before rest).map fun mark => (UInt16.ofNat mark.1, mark.2) := by
  induction rest generalizing before with
  | nil => simp [marksFrom]
  | cons line rest ih =>
      rw [List.append_cons, ih, (program.writes_concat before line).lines, marksFrom,
        List.map_append, List.map_map, List.append_assoc]
      rfl

theorem le_of_mem_marksFrom {before rest : List Line} {mark : Nat × UInt16}
    (member : mark ∈ program.marksFrom before rest) :
    mark.1 ≤ program.pcAfter (before ++ rest) := by
  induction rest generalizing before with
  | nil => cases member
  | cons line rest ih =>
      rcases List.mem_append.mp member with here | later
      · obtain ⟨source, -, rfl⟩ := List.mem_map.mp here
        exact program.pcAfter_le before _
      · rw [List.append_cons]
        exact ih later

/-! ## Finished code -/

/-- Finished code is a row of filled pieces. -/
theorem bytecode_eq {pieces : List Piece}
    (appends : (program.after []).1.Appends program.assembled pieces) :
    program.bytecode =
      (pieces.mapM (Piece.filled program.assembled)).map fun parts => parts.flatten.toArray :=
  appends.patched_eq rfl rfl

theorem length_flatten_of_filled {builder : CodeBuilder} {pieces : List Piece}
    {parts : List (List UInt8)} (fills : pieces.mapM (Piece.filled builder) = .ok parts) :
    parts.flatten.length = (pieces.flatMap Piece.blank).length := by
  have each := mapM_eq_ok_iff.mp fills
  induction each with
  | nil => rfl
  | cons first rest ih =>
      rw [List.flatten_cons, List.flatMap_cons, List.length_append, List.length_append,
        Piece.length_of_filled first, ih (mapM_eq_ok_iff.mpr rest)]

/-- Filling in offsets does not change the length. -/
theorem size_of_bytecode {code : Array UInt8} (finished : program.bytecode = .ok code) :
    code.size = program.pcAfter program.body := by
  obtain ⟨pieces, appends⟩ := program.exists_appends [] program.body
  rw [List.nil_append] at appends
  rw [program.bytecode_eq appends] at finished
  cases fills : pieces.mapM (Piece.filled program.assembled) with
  | error error =>
      rw [fills] at finished
      cases finished
  | ok parts =>
      rw [fills] at finished
      cases finished
      rw [List.size_toArray, length_flatten_of_filled fills, pcAfter, appends.size]
      exact (Nat.zero_add _).symm

/-- The pieces that a line appends stand in the finished code, with their offsets, and no other
line starts inside. -/
theorem at_of_appends {code : Array UInt8} (finished : program.bytecode = .ok code)
    {before rest : List Line} {emitted : Line} (split : program.body = before ++ emitted :: rest)
    {pieces : List Piece}
    (appends : (program.after before).1.Appends (program.after (before ++ [emitted])).1 pieces) :
    ∃ parts, pieces.mapM (Piece.filled program.assembled) = .ok parts ∧
      Bytes.At code (program.pcAfter before) parts.flatten ∧
      ∀ index inner, program.Emits index inner →
        index ≤ program.pcAfter before ∨ program.pcAfter before + parts.flatten.length ≤ index := by
  obtain ⟨early, first⟩ := program.exists_appends [] before
  obtain ⟨late, third⟩ := program.exists_appends (before ++ [emitted]) rest
  rw [List.append_assoc, List.singleton_append, ← split] at third
  have start : (early.flatMap Piece.blank).length = program.pcAfter before := by
    have size := first.size
    rwa [show (program.after []).1.code.size = 0 from rfl, Nat.zero_add, eq_comm] at size
  rw [program.bytecode_eq ((first.trans appends).trans third)] at finished
  cases fills : (early ++ pieces ++ late).mapM (Piece.filled program.assembled) with
  | error error =>
      rw [fills] at finished
      cases finished
  | ok parts =>
      rw [fills] at finished
      cases finished
      obtain ⟨both, back, fills', -, rfl⟩ := mapM_append_eq_ok fills
      obtain ⟨front, middle, first', second', rfl⟩ := mapM_append_eq_ok fills'
      refine ⟨middle, second', ?_, fun index inner starts => ?_⟩
      · rw [← start, ← length_flatten_of_filled first']
        have whole : (front ++ middle ++ back).flatten.toArray.toList =
            front.flatten ++ middle.flatten ++ back.flatten := by
          simp only [List.flatten_append]
        exact Bytes.At.of_append whole
      · rw [Emits, split] at starts
        rw [length_flatten_of_filled second', pcAfter, ← appends.size]
        exact program.outside_of_holds starts

/-- The pieces of a line stand in the finished code, with their offsets, and no other line
starts inside. -/
theorem at_of_emits {code : Array UInt8} (finished : program.bytecode = .ok code) {pc : Nat}
    {emitted : Line} (emits : program.Emits pc emitted) :
    ∃ other parts, (emitted.pieces pc other).mapM (Piece.filled program.assembled) = .ok parts ∧
      Bytes.At code pc parts.flatten ∧
      ∀ index inner, program.Emits index inner → index ≤ pc ∨ pc + parts.flatten.length ≤ index := by
  obtain ⟨before, rest, split, rfl⟩ := emits
  obtain ⟨other, appends⟩ := (program.writes_concat before emitted).appends
  exact ⟨other, program.at_of_appends finished split appends⟩

/-! ## Which bodies are accepted -/

/-- A label that a line uses is the label of one of its pieces, or of its handler. -/
theorem offset_of_uses {emitted : Line} {label : Label} (uses : label ∈ emitted.uses) (pc : Nat)
    (other : List UInt8) :
    (∃ far, .offset pc label far ∈ emitted.pieces pc other) ∨
      ∃ start finish target, emitted.handler? = some (start, finish, target) ∧
        label ∈ [start, finish, target] := by
  cases emitted with
  | branch opcode used =>
      cases List.mem_singleton.mp uses
      exact .inl ⟨false, .tail _ (.head _)⟩
  | farJump used =>
      cases List.mem_singleton.mp uses
      exact .inl ⟨true, .tail _ (.head _)⟩
  | tableSwitch low fallback targets =>
      refine .inl ⟨true, ?_⟩
      rcases List.mem_cons.mp uses with rfl | member
      · simp [Line.pieces]
      · exact List.mem_append_right _ (List.mem_map_of_mem member)
  | lookupSwitch fallback pairs =>
      refine .inl ⟨true, ?_⟩
      rcases List.mem_cons.mp uses with rfl | member
      · simp [Line.pieces]
      · obtain ⟨pair, within, rfl⟩ := List.mem_map.mp member
        refine List.mem_append_right _ (List.mem_flatMap.mpr ⟨pair, ?_, .tail _ (.head _)⟩)
        exact List.mem_mergeSort.mpr within
  | handler start finish target catchType => exact .inr ⟨start, finish, target, rfl, uses⟩
  | _ => cases uses

/-- Pieces wait for labels that their line uses, and near offsets are those of branches. -/
theorem uses_of_offset {emitted : Line} {pc instruction : Nat} {other : List UInt8}
    {label : Label} {far : Bool}
    (piece : .offset instruction label far ∈ emitted.pieces pc other) :
    label ∈ emitted.uses ∧ instruction = pc ∧
      (far = true ∨ ∃ opcode, emitted = .branch opcode label) := by
  cases emitted with
  | branch opcode used =>
      obtain ⟨rfl, rfl, rfl⟩ : instruction = pc ∧ label = used ∧ far = false := by
        simpa [Line.pieces] using piece
      exact ⟨.head _, rfl, .inr ⟨opcode, rfl⟩⟩
  | farJump used =>
      obtain ⟨rfl, rfl, rfl⟩ : instruction = pc ∧ label = used ∧ far = true := by
        simpa [Line.pieces] using piece
      exact ⟨.head _, rfl, .inl rfl⟩
  | tableSwitch low fallback targets =>
      obtain ⟨rfl, rfl, rfl⟩ | ⟨target, member, rfl, rfl, rfl⟩ :
          (instruction = pc ∧ label = fallback ∧ far = true) ∨
            ∃ target ∈ targets, pc = instruction ∧ target = label ∧ true = far := by
        simpa [Line.pieces] using piece
      · exact ⟨.head _, rfl, .inl rfl⟩
      · exact ⟨.tail _ member, rfl, .inl rfl⟩
  | lookupSwitch fallback pairs =>
      obtain ⟨rfl, rfl, rfl⟩ | ⟨key, member, rfl, rfl⟩ :
          (instruction = pc ∧ label = fallback ∧ far = true) ∨
            ∃ key, (key, label) ∈ pairs ∧ instruction = pc ∧ far = true := by
        simpa [Line.pieces, sortedPairs] using piece
      · exact ⟨.head _, rfl, .inl rfl⟩
      · exact ⟨.tail _ (List.mem_map_of_mem (f := Prod.snd) member), rfl, .inl rfl⟩
  | _ => cases List.mem_singleton.mp piece

/-- A body is accepted if its offsets can be filled in, the code has a good length and
its handlers have their labels. -/
theorem accepted_iff_finish :
    program.Accepted ↔
      (∃ code, program.bytecode = .ok code ∧ CodeBuilder.GoodLength code.size) ∧
        ∃ handlers, program.assembled.handlers.toList.mapM program.assembled.handlerBytes =
          .ok handlers := by
  rw [Accepted, run_codeAttribute]
  cases patched : program.bytecode with
  | error error =>
      rw [CodeBuilder.finish_of_unpatched _ _ patched]
      constructor
      · rintro ⟨_, _, ⟨⟩⟩
      · rintro ⟨⟨_, ⟨⟩, _⟩, _⟩
  | ok code =>
      by_cases good : CodeBuilder.GoodLength code.size
      · rw [CodeBuilder.finish_of_patched _ _ patched good]
        dsimp only
        cases program.assembled.handlers.toList.mapM program.assembled.handlerBytes with
        | error error =>
            constructor
            · rintro ⟨_, _, equal⟩
              cases congrArg Prod.fst equal
            · rintro ⟨_, _, ⟨⟩⟩
        | ok handlers => exact ⟨fun _ => ⟨⟨code, rfl, good⟩, handlers, rfl⟩, fun _ => ⟨_, _, rfl⟩⟩
      · rw [CodeBuilder.finish_of_badLength _ _ patched good]
        constructor
        · rintro ⟨_, _, equal⟩
          cases congrArg Prod.fst equal
        · rintro ⟨⟨_, ⟨⟩, good'⟩, _⟩
          exact absurd good' good

/-- Whether a near offset from a branch to the place of its label fits. -/
def NearFits (pc target : Nat) : Prop := -32768 ≤ (target : Int) - pc ∧ (target : Int) - pc ≤ 32767

/-- Every offset can be filled in if all labels have places and near offsets fit. -/
theorem exists_filled (bound : ∀ label, program.Uses label → ∃ pc, program.Binds label pc)
    (near : ∀ pc opcode label target, program.Emits pc (.branch opcode label) →
      program.Binds label target → NearFits pc target) {piece : Piece} {pc : Nat} {emitted : Line}
    {other : List UInt8} (emits : program.Emits pc emitted)
    (member : piece ∈ emitted.pieces pc other) :
    ∃ values, piece.filled program.assembled = .ok values := by
  cases piece with
  | bytes values => exact ⟨values, rfl⟩
  | offset instruction label far =>
      obtain ⟨uses, rfl, wide⟩ := uses_of_offset member
      have within : emitted ∈ program.body := by
        obtain ⟨before, rest, split, -⟩ := emits
        exact split ▸ List.mem_append_right before (.head _)
      obtain ⟨target, binds⟩ := bound label ⟨emitted, within, uses⟩
      have fits : Piece.Fits far ((target : Int) - instruction) := by
        rcases wide with rfl | ⟨opcode, rfl⟩
        · exact .inl rfl
        · exact .inr (near instruction opcode label target emits binds)
      simp only [Piece.filled, program.place_iff.mpr binds, bind, Except.bind, if_pos fits]
      exact ⟨_, rfl⟩

/-- A body is accepted exactly if the labels it uses are bound, near offsets fit and the
code has a good length. -/
theorem accepted_iff :
    program.Accepted ↔
      (∀ label, program.Uses label → ∃ pc, program.Binds label pc) ∧
      (∀ pc opcode label target, program.Emits pc (.branch opcode label) →
        program.Binds label target → NearFits pc target) ∧
      CodeBuilder.GoodLength (program.pcAfter program.body) := by
  rw [accepted_iff_finish]
  constructor
  · rintro ⟨⟨code, finished, good⟩, handlers, handled⟩
    refine ⟨?_, ?_, program.size_of_bytecode finished ▸ good⟩
    · rintro label ⟨emitted, within, uses⟩
      obtain ⟨before, rest, split⟩ := List.append_of_mem within
      obtain ⟨other, parts, fills, -⟩ :=
        program.at_of_emits finished ⟨before, rest, split, rfl⟩
      suffices ∃ pc, program.assembled.place label = .ok pc by
        obtain ⟨pc, placed⟩ := this
        exact ⟨pc, program.place_iff.mp placed⟩
      rcases offset_of_uses uses (program.pcAfter before) other with
        ⟨far, member⟩ | ⟨start, finish, target, handles, member⟩
      · obtain ⟨values, filled⟩ := exists_ok_of_mapM fills member
        cases placed : program.assembled.place label with
        | error error =>
            simp only [Piece.filled, placed] at filled
            cases filled
        | ok position => exact ⟨position, rfl⟩
      · have listed : (start, finish, target) ∈
            program.assembled.handlers.toList.map PendingHandler.labels := by
          rw [assembled, handlers_eq]
          exact List.mem_filterMap.mpr ⟨emitted, within, handles⟩
        obtain ⟨handler, member', labels⟩ := List.mem_map.mp listed
        cases labels
        exact (CodeBuilder.exists_handlerBytes_iff _ handler).mp
          (exists_ok_of_mapM handled member') label member
    · intro pc opcode label target emits binds
      obtain ⟨other, parts, fills, -⟩ := program.at_of_emits finished emits
      obtain ⟨values, filled⟩ := exists_ok_of_mapM fills (.tail _ (.head _))
      simp only [Piece.filled, program.place_iff.mpr binds, bind, Except.bind] at filled
      by_contra far
      have unfit : ¬Piece.Fits false ((target : Int) - pc) := by
        rintro (never | fits)
        · cases never
        · exact far fits
      rw [if_neg unfit] at filled
      cases filled
  · rintro ⟨bound, near, good⟩
    obtain ⟨pieces, appends, lined⟩ := program.exists_line_of_piece program.body
    have filled : ∃ parts, pieces.mapM (Piece.filled program.assembled) = .ok parts := by
      apply exists_mapM_eq_ok
      intro piece member
      obtain ⟨pc, emitted, other, emits, within⟩ := lined piece member
      exact program.exists_filled bound near emits within
    obtain ⟨parts, fills⟩ := filled
    have finished : program.bytecode = .ok parts.flatten.toArray := by
      rw [program.bytecode_eq appends, fills]
      rfl
    refine ⟨⟨_, finished, (program.size_of_bytecode finished).symm ▸ good⟩, ?_⟩
    apply exists_mapM_eq_ok
    intro handler member
    refine (CodeBuilder.exists_handlerBytes_iff _ handler).mpr fun label labelled => ?_
    have listed := List.mem_map_of_mem (f := PendingHandler.labels) member
    rw [assembled, handlers_eq] at listed
    obtain ⟨emitted, within, handles⟩ := List.mem_filterMap.mp listed
    have uses : label ∈ emitted.uses := by
      cases emitted <;> cases handles
      exact labelled
    obtain ⟨pc, binds⟩ := bound label ⟨emitted, within, uses⟩
    exact ⟨pc, program.place_iff.mpr binds⟩

end Program

end Assembler

end Jvm
