import Jvm.Assembler.Class
import Jvm.Proofs.Assembler.Numbers
import Jvm.Proofs.Assembler.Program

/-!
# Members read back

The bytes of a field or method name constants by their numbers. With a pool that holds
every constant in the slot of its number they are read back as the member that was
assembled: a field with the slot of its initial value, a method with the code that its
body has.
-/

namespace Jvm

/-! ## Names and attributes -/

namespace ClassFile

open Cursor
open Reader (Reads)

variable {pool : ConstantPool} {index : UInt16}

theorem reads_textRef {text : String} (named : pool.slot index = .utf8 text) :
    Reads (textRef pool) (Bytes.ofShort index) text :=
  (reads_short index).last (Reads.lift ((pool.utf8_eq_ok_iff index text).mpr named))

theorem reads_classRef {name : String} (named : pool.className index = .ok name) :
    Reads (classRef pool) (Bytes.ofShort index) name :=
  (reads_short index).last (Reads.lift named)

variable {α : Type} {wanted : String} {start value : α} {body : α → Reader α}
  {part : List UInt8}

theorem reads_attributes_none :
    Reads (attributes pool wanted start body) (Bytes.ofShort 0) start :=
  (reads_short 0).last (reads_fold_never start)

/-- An attribute that is wanted is read whatever length it declares. -/
theorem reads_attributes_one (named : pool.slot index = .utf8 wanted) (length : UInt32)
    (once : Reads (body start) part value) :
    Reads (attributes pool wanted start body)
      (Bytes.ofShort 1 ++ (Bytes.ofShort index ++ Bytes.ofWord length ++ part)) value := by
  refine (reads_short 1).bind (reads_fold_once ?_)
  refine ((reads_textRef named).bind ((reads_word length).map fun word =>
    (wanted, word.toNat))).bind ?_
  dsimp only
  rw [if_pos rfl]
  exact once

theorem reads_handler (startPc endPc handlerPc catchType : UInt16) :
    Reads handler (Bytes.ofShort startPc ++ Bytes.ofShort endPc ++ Bytes.ofShort handlerPc ++
      Bytes.ofShort catchType) ⟨startPc, endPc, handlerPc, catchType⟩ := by
  simp only [List.append_assoc]
  exact (reads_short _).bind ((reads_short _).bind ((reads_short _).bind
    ((reads_short _).map (Handler.mk startPc endPc handlerPc))))

theorem reads_lineEntry (startPc line : UInt16) :
    Reads lineEntry (Bytes.ofShort startPc ++ Bytes.ofShort line) ⟨startPc, line⟩ :=
  (reads_short _).bind ((reads_short _).map (LineEntry.mk startPc))

end ClassFile

namespace Assembler

open Reader (Reads)
open ClassFile Cursor

variable {held : ConstantPool}

/-! ## Headers and fields -/

/-- Whether bytes are flags and the numbers of a name and a descriptor. -/
def IsHeader (held : ConstantPool) (flags : UInt16) (name descriptor : String)
    (bytes : List UInt8) : Prop :=
  ∃ nameIndex descriptorIndex,
    bytes = Bytes.ofShort flags ++ (Bytes.ofShort nameIndex ++ Bytes.ofShort descriptorIndex) ∧
      held.slot nameIndex = .utf8 name ∧ held.slot descriptorIndex = .utf8 descriptor

theorem gives_memberHeader (flags : UInt16) (name descriptor : String) :
    (ClassBuilder.memberHeader flags name descriptor).Gives held fun bytes =>
      IsHeader held flags name descriptor bytes.toList :=
  (Numbering.gives_utf8 name).bind fun nameIndex =>
    (Numbering.gives_utf8 descriptor).bind fun descriptorIndex =>
      .pure fun second first =>
        ⟨nameIndex, descriptorIndex, List.append_assoc _ _ _, first, second⟩

theorem IsHeader.reads {flags : UInt16} {name descriptor : String} {bytes part : List UInt8}
    (header : IsHeader held flags name descriptor bytes) {α : Type}
    {next : UInt16 → String → String → Reader α} {value : α}
    (rest : Reads (next flags name descriptor) part value) :
    Reads (do
      let flags ← short
      let name ← textRef held
      let descriptor ← textRef held
      next flags name descriptor) (bytes ++ part) value := by
  obtain ⟨nameIndex, descriptorIndex, rfl, named, described⟩ := header
  simp only [List.append_assoc]
  exact (reads_short flags).bind ((reads_textRef named).bind ((reads_textRef described).bind rest))

/-- Whether a pool holds an initial value at an index, bit for bit. -/
def Initial.HeldAt (held : ConstantPool) (index : UInt16) : Initial → Prop
  | .int value => held.slot index = .integer value
  | .long value => held.slot index = .long value
  | .float bits => held.slot index = .float bits
  | .double bits => held.slot index = .double bits
  | .string text => ∃ textIndex, held.slot index = .string textIndex ∧
      held.slot textIndex = .utf8 text

theorem gives_number (initial : Initial) :
    initial.number.Gives held fun index => initial.HeldAt held index := by
  cases initial with
  | string text => exact Numbering.gives_string text
  | int _ | long _ | float _ | double _ => exact Numbering.gives_item _ ⟨trivial, nofun⟩

/-- Whether a field has a slot for its initial value exactly if it has one, and the pool
holds it there. -/
def HasInitial (held : ConstantPool) : Option Initial → Option UInt16 → Prop
  | none, none => True
  | some initial, some index => initial.HeldAt held index
  | _, _ => False

/-- Whether a field is what a part of a class says. -/
def Part.IsField (held : ConstantPool) : Part → FieldInfo → Prop
  | .field access name descriptor initial, info =>
    info.flags = access ∧ info.name = name ∧ info.descriptor = descriptor ∧
      HasInitial held initial info.constantValue
  | _, _ => False

/-- A field with a valid descriptor is read back. -/
theorem gives_fieldBytes (flags : UInt16) (name descriptor : String) (initial : Option Initial) :
    (ClassBuilder.fieldBytes flags name descriptor initial).Gives held fun bytes =>
      ∀ type, Descriptor.fieldType descriptor = .ok type →
        ∃ info, Reads (field held) bytes.toList info ∧
          (Part.field flags name descriptor initial).IsField held info := by
  refine (gives_memberHeader flags name descriptor).bind fun header => ?_
  have reads {type : TypeItem} (valid : Descriptor.fieldType descriptor = .ok type)
      {part : List UInt8} {constantValue : Option UInt16}
      (read : Reads (attributes held "ConstantValue" none fun _ => do
        pure (some (← short))) part constantValue)
      (named : IsHeader held flags name descriptor header.toList) :
      Reads (field held) (header.toList ++ part) ⟨flags, name, descriptor, constantValue⟩ :=
    named.reads (Reads.lift_bind valid (read.map (FieldInfo.mk flags name descriptor)))
  cases initial with
  | none =>
      refine .pure fun named type valid =>
        ⟨⟨flags, name, descriptor, none⟩, ?_, rfl, rfl, rfl, trivial⟩
      rw [Array.toList_appendList]
      exact reads valid reads_attributes_none named
  | some initial =>
      refine (Numbering.gives_utf8 "ConstantValue").bind fun attributeName =>
        (gives_number initial).bind fun index => .pure fun holds called named type valid =>
          ⟨⟨flags, name, descriptor, some index⟩, ?_, rfl, rfl, rfl, holds⟩
      have read := reads valid (reads_attributes_one called 2 ((reads_short index).map some)) named
      simpa using read

/-! ## Lines and bodies -/

section

variable {builder : CodeBuilder}

theorem gives_constant (constant : Constant) (written : constant.IsWritten)
    (change : UInt16 → CodeBuilder) :
    Numbering.Gives held (do pure (change (← Numbering.item constant))) fun _ => True :=
  (Numbering.gives_item constant written).bind fun _ => .pure fun _ => trivial

theorem gives_classOperand (opcode : Opcode) (name : String) :
    (classOperand builder opcode name).Gives held fun _ => True :=
  (Numbering.gives_cls name).bind fun _ => .pure fun _ => trivial

theorem gives_memberOperand (opcode : Opcode) {make : UInt16 → UInt16 → Constant}
    (written : ∀ first second, (make first second).IsWritten) (owner name descriptor : String) :
    (memberOperand builder opcode make owner name descriptor).Gives held fun _ => True :=
  (Numbering.gives_member written owner name descriptor).bind fun _ => .pure fun _ => trivial

/-- Whatever a line adds to the code, it only adds constants. -/
theorem gives_line (builder : CodeBuilder) (added : Line) :
    (line builder added).Gives held fun _ => True := by
  have done {after : CodeBuilder} :
      (pure after : Numbering CodeBuilder).Gives held fun _ => True := .pure trivial
  have field (first second : UInt16) : (Constant.fieldRef first second).IsWritten :=
    ⟨trivial, nofun⟩
  have method (first second : UInt16) : (Constant.methodRef first second).IsWritten :=
    ⟨trivial, nofun⟩
  have interface (first second : UInt16) :
      (Constant.interfaceMethodRef first second).IsWritten := ⟨trivial, nofun⟩
  cases added with
  | int value =>
      exact .ite done (.ite done (.ite done (gives_constant (.integer value) ⟨trivial, nofun⟩ _)))
  | long value =>
      exact .ite done (.ite done (gives_constant (.long value) ⟨trivial, nofun⟩ _))
  | float bits =>
      exact .ite done (.ite done (.ite done (gives_constant (.float bits) ⟨trivial, nofun⟩ _)))
  | double bits =>
      exact .ite done (.ite done (gives_constant (.double bits) ⟨trivial, nofun⟩ _))
  | string text =>
      exact (Numbering.gives_string text).bind fun _ => .pure fun _ => trivial
  | classConstant name =>
      exact (Numbering.gives_cls name).bind fun _ => .pure fun _ => trivial
  | newObject name | newRefArray name | checkCast name | instanceOf name =>
      exact gives_classOperand _ name
  | newMultiArray name dimensions =>
      exact (gives_classOperand _ name).bind fun _ => .pure fun _ => trivial
  | getStatic owner name descriptor | putStatic owner name descriptor
  | getField owner name descriptor | putField owner name descriptor =>
      exact gives_memberOperand _ field owner name descriptor
  | invokeVirtual owner name descriptor | invokeSpecial owner name descriptor
  | invokeStatic owner name descriptor =>
      exact gives_memberOperand _ method owner name descriptor
  | invokeInterface owner name descriptor =>
      exact (gives_memberOperand _ interface owner name descriptor).bind fun _ =>
        .pure fun _ => trivial
  | handler start finish target catchType =>
      cases catchType with
      | none => exact done
      | some name => exact (Numbering.gives_cls name).bind fun _ => .pure fun _ => trivial
  | _ => exact done

end

/-- Whether a line adds a handler. -/
def Line.isHandler : Line → Bool
  | .handler .. => true
  | _ => false

/-- Whether an index is zero for no class, else that of a class of a name. -/
def NamesClass (held : ConstantPool) (index : UInt16) : Option String → Prop
  | none => index = 0
  | some name => held.className index = .ok name

/-- Whether a handler that waits for its labels is that of a line. -/
def PendingHandler.IsOf (held : ConstantPool) (pending : PendingHandler) : Line → Prop
  | .handler start finish target catchType =>
    pending.labels = (start, finish, target) ∧ NamesClass held pending.catchType catchType
  | _ => False

namespace Program

variable (program : Program)

/-- Further lines only add constants. -/
theorem grows_append (lines more : List Line) :
    (program.after lines).2.Grows (program.after (lines ++ more)).2 := by
  induction more using List.reverseRecOn with
  | nil =>
      rw [List.append_nil]
      exact .refl _
  | append_singleton more last ih =>
      rw [← List.append_assoc, after_concat]
      exact ih.trans (Numbering.Gives.grows (fun _ => gives_line _ last) _)

theorem grows_after (lines : List Line) : program.pool.Grows (program.after lines).2 :=
  program.grows_append [] lines

/-- What a line adds to the handlers. -/
theorem exists_pending (lines : List Line) (last : Line)
    (holds : held.Holds (program.after (lines ++ [last])).2) :
    ∃ added, (program.after (lines ++ [last])).1.handlers.toList =
        (program.after lines).1.handlers.toList ++ added ∧
      List.Forall₂ (fun line pending => PendingHandler.IsOf held pending line)
        ([last].filter Line.isHandler) added := by
  obtain ⟨added, whole, labels⟩ := (program.writes_concat lines last).handlers
  cases last with
  | handler start finish target catchType =>
      rw [after_concat] at holds ⊢
      cases catchType with
      | none => exact ⟨_, Array.toList_push, .cons ⟨rfl, rfl⟩ .nil⟩
      | some name =>
          have named : held.className _ = .ok name := (Numbering.gives_cls name _).2 holds
          exact ⟨_, Array.toList_push, .cons ⟨rfl, named⟩ .nil⟩
  | _ =>
      have none : added.map PendingHandler.labels = [] := labels
      cases List.map_eq_nil_iff.mp none
      exact ⟨[], whole, .nil⟩

theorem pendings_of_holds {lines : List Line} (holds : held.Holds (program.after lines).2) :
    List.Forall₂ (fun line pending => PendingHandler.IsOf held pending line)
      (lines.filter Line.isHandler) (program.after lines).1.handlers.toList := by
  induction lines using List.reverseRecOn with
  | nil => exact .nil
  | append_singleton lines last ih =>
      obtain ⟨added, whole, more⟩ := program.exists_pending lines last holds
      rw [whole, List.filter_append]
      rw [after_concat] at holds
      have grows := Numbering.Gives.grows (fun _ => gives_line (program.after lines).1 last)
        (program.after lines).2
      exact List.rel_append (ih (holds.of_grows grows)) more

/-! ## Code -/

/-- Whether a handler covers the places of the labels of a line and catches its type. -/
def Catches (program : Program) (held : ConstantPool) : Line → Handler → Prop
  | .handler start finish target catchType, handler =>
    program.Binds start handler.startPc.toNat ∧ program.Binds finish handler.endPc.toNat ∧
      program.Binds target handler.handlerPc.toNat ∧ NamesClass held handler.catchType catchType
  | _, _ => False

/-- Whether code is that of a program: its settings, its bytes, and its handlers and source
lines in order. The constants that it names are in the pool. -/
structure IsCode (program : Program) (held : ConstantPool) (code : Code) : Prop where
  constants : held.Holds (program.after program.body).2
  maxStack : code.maxStack = program.assembled.maxStack
  maxLocals : code.maxLocals = program.assembled.maxLocals
  bytecode : program.bytecode = .ok code.bytecode
  handlers : List.Forall₂ (program.Catches held) (program.body.filter Line.isHandler) code.handlers
  lines : code.lines.map (fun entry => (entry.startPc.toNat, entry.line)) = program.marks

variable {program}

theorem le_of_binds {label : Label} {pc : Nat} (binds : program.Binds label pc) :
    pc ≤ program.pcAfter program.body := by
  obtain ⟨before, rest, split, -, rfl⟩ := binds
  rw [split]
  exact program.pcAfter_le before _

/-- The place of a label is written without loss if the code is short. -/
theorem binds_ofNat (short : program.pcAfter program.body ≤ 0xFFFF) {label : Label} {pc : Nat}
    (placed : program.assembled.place label = .ok pc) :
    program.Binds label (UInt16.ofNat pc).toNat := by
  have binds := program.place_iff.mp placed
  have small := le_of_binds binds
  rwa [UInt16.toNat_ofNat_of_lt' (by rw [UInt16.size]; omega)]

theorem exists_handler (short : program.pcAfter program.body ≤ 0xFFFF) {added : Line}
    {pending : PendingHandler} (is : pending.IsOf held added) {bytes : List UInt8}
    (written : program.assembled.handlerBytes pending = .ok bytes) :
    ∃ entry, Reads handler bytes entry ∧ program.Catches held added entry := by
  cases added with
  | handler start finish target catchType =>
      obtain ⟨labels, catches⟩ := is
      cases labels
      simp only [CodeBuilder.handlerBytes, bind, Except.bind] at written
      cases starts : program.assembled.place pending.start with
      | error error => simp [starts] at written
      | ok startPc =>
          cases ends : program.assembled.place pending.finish with
          | error error => simp [starts, ends] at written
          | ok endPc =>
              cases handles : program.assembled.place pending.target with
              | error error => simp [starts, ends, handles] at written
              | ok handlerPc =>
                  simp only [starts, ends, handles] at written
                  cases written
                  exact ⟨_, reads_handler _ _ _ _, binds_ofNat short starts,
                    binds_ofNat short ends, binds_ofNat short handles, catches⟩
  | _ => exact is.elim

theorem exists_handlers (short : program.pcAfter program.body ≤ 0xFFFF) {lines : List Line}
    {pendings : List PendingHandler} {parts : List (List UInt8)}
    (are : List.Forall₂ (fun line pending => PendingHandler.IsOf held pending line) lines pendings)
    (written : pendings.mapM program.assembled.handlerBytes = .ok parts) :
    ∃ handlers, List.Forall₂ (Reads handler) parts handlers ∧
      List.Forall₂ (program.Catches held) lines handlers := by
  have each := mapM_eq_ok_iff.mp written
  clear written
  induction are generalizing parts with
  | nil =>
      cases each
      exact ⟨[], .nil, .nil⟩
  | cons is rest ih =>
      obtain _ | ⟨first, others⟩ := each
      obtain ⟨entry, reads, catches⟩ := exists_handler short is first
      obtain ⟨handlers, more, caught⟩ := ih others
      exact ⟨entry :: handlers, .cons reads more, .cons catches caught⟩

/-- The source lines of a body as its line table holds them. -/
def lineTable (program : Program) : List LineEntry :=
  program.marks.map fun mark => ⟨UInt16.ofNat mark.1, mark.2⟩

theorem lines_toList (program : Program) :
    program.assembled.lines.toList.map (fun entry => LineEntry.mk entry.1 entry.2) =
      program.lineTable := by
  have lines := program.lines_eq [] program.body
  rw [List.nil_append, show (program.after []).1.lines.toList = [] from rfl, List.nil_append]
    at lines
  rw [assembled, lines, lineTable, marks, List.map_map]
  rfl

theorem toNat_lineTable (short : program.pcAfter program.body ≤ 0xFFFF) :
    program.lineTable.map (fun entry => (entry.startPc.toNat, entry.line)) = program.marks := by
  rw [lineTable, List.map_map]
  refine (List.map_congr_left fun mark member => ?_).trans (List.map_id _)
  have small := program.le_of_mem_marksFrom member
  rw [List.nil_append] at small
  simp only [Function.comp_apply, id_eq]
  rw [UInt16.toNat_ofNat_of_lt' (by rw [UInt16.size]; omega)]

/-- Whether a line table has the number of its name, and is missing only if there are no
source lines. -/
def NamesTable (program : Program) (held : ConstantPool) : Option UInt16 → Prop
  | none => program.lineTable = []
  | some name => held.slot name = .utf8 "LineNumberTable"

theorem gives_attributeNames (program : Program) :
    program.assembled.attributeNames.Gives held fun names =>
      held.slot names.1 = .utf8 "Code" ∧ program.NamesTable held names.2 := by
  refine (Numbering.gives_utf8 "Code").bind fun name => ?_
  dsimp only
  split
  · next empty =>
      have none : program.lineTable = [] := by
        rw [← lines_toList, Array.isEmpty_iff.mp empty]
        rfl
      exact .pure fun named => ⟨named, none⟩
  · exact Numbering.Gives.bind (Numbering.gives_utf8 "LineNumberTable") fun linesName =>
      .pure fun called named => ⟨named, called⟩

/-- A line table is read back. -/
theorem reads_lineBytes {linesName : Option UInt16}
    (named : program.NamesTable held linesName) (few : program.lineTable.length < 65536) :
    Reads (attributes held "LineNumberTable" #[] fun lines => do
      let count ← short
      let more ← many count.toNat lineEntry
      pure (lines ++ more)) (program.assembled.lineBytes linesName) program.lineTable.toArray := by
  cases linesName with
  | none =>
      rw [show program.lineTable = [] from named]
      exact reads_attributes_none
  | some linesName =>
      have size : program.assembled.lines.size = program.lineTable.length := by
        rw [← lines_toList, List.length_map, Array.length_toList]
      have each : List.Forall₂ (Reads lineEntry)
          (program.assembled.lines.toList.map fun entry =>
            Bytes.ofShort entry.1 ++ Bytes.ofShort entry.2) program.lineTable := by
        rw [← lines_toList, List.forall₂_map_left_iff, List.forall₂_map_right_iff]
        exact List.forall₂_same.mpr fun entry _ => reads_lineEntry entry.1 entry.2
      have entries := reads_many each
      rw [List.length_map, Array.length_toList, size] at entries
      have counted : (UInt16.ofNat program.assembled.lines.size).toNat =
          program.lineTable.length := by
        rw [size]
        exact UInt16.toNat_ofNat_of_lt' few
      rw [CodeBuilder.lineBytes, List.flatMap_def]
      simp only [List.append_assoc]
      rw [← List.append_assoc (Bytes.ofShort linesName)]
      refine reads_attributes_one named _ ((reads_short _).bind ?_)
      rw [counted, ← @Array.empty_append _ program.lineTable.toArray]
      exact entries.map fun more => #[] ++ more

/-- The body of a code attribute is read back. -/
theorem reads_attributeBody {bytecode : Array UInt8} (good : CodeBuilder.GoodLength bytecode.size)
    {parts : List (List UInt8)} {handlers : List Handler}
    (entries : List.Forall₂ (Reads handler) parts handlers)
    (count : program.assembled.handlers.size = handlers.length) (few : handlers.length < 65536)
    {linesName : Option UInt16} (named : program.NamesTable held linesName)
    (fewLines : program.lineTable.length < 65536) :
    Reads (code held) (program.assembled.attributeBody bytecode parts linesName).toList
      { maxStack := program.assembled.maxStack, maxLocals := program.assembled.maxLocals, bytecode
        handlers, lines := program.lineTable } := by
  have length : (UInt32.ofNat bytecode.size).toNat = bytecode.size :=
    UInt32.toNat_ofNat_of_lt' (by rw [UInt32.size]; have := good.2; omega)
  have accepted : ¬(UInt32.ofNat bytecode.size = 0 ∨ 0xFFFF < UInt32.ofNat bytecode.size) := by
    rw [UInt32.lt_iff_toNat_lt, ← UInt32.toNat_inj, length]
    exact not_or.mpr ⟨Nat.ne_of_gt good.1, Nat.not_lt.mpr good.2⟩
  have counted : (UInt16.ofNat program.assembled.handlers.size).toNat = parts.length := by
    rw [count, UInt16.toNat_ofNat_of_lt' few, entries.length_eq]
  have bytes := reads_bytes? bytecode.toList
  rw [Array.toArray_toList, Array.length_toList] at bytes
  have shape : (program.assembled.attributeBody bytecode parts linesName).toList =
      Bytes.ofShort program.assembled.maxStack ++ (Bytes.ofShort program.assembled.maxLocals ++
        (Bytes.ofWord (UInt32.ofNat bytecode.size) ++ (bytecode.toList ++
          (Bytes.ofShort (UInt16.ofNat program.assembled.handlers.size) ++
            (parts.flatten ++ program.assembled.lineBytes linesName))))) := by
    simp [CodeBuilder.attributeBody]
  rw [shape]
  refine (reads_short _).bind ((reads_short _).bind ((reads_word _).bind ?_))
  rw [if_neg accepted, length]
  refine bytes.bind ((reads_short _).bind ?_)
  rw [counted]
  exact (reads_many entries).bind ((reads_lineBytes named fewLines).map fun lines =>
    Code.mk _ _ bytecode handlers lines.toList)

/-- A code attribute is read back as code of its body. -/
theorem exists_code (program : Program) {pool : PoolBuilder} {bytes : Array UInt8}
    (accepted : (codeAttribute program.slots program.body).run.run program.pool = (.ok bytes, pool))
    (holds : held.Holds pool) (fewHandlers : (program.body.filter Line.isHandler).length < 65536)
    (fewLines : program.lineTable.length < 65536) :
    ∃ value, program.IsCode held value ∧
      Reads (attributes held "Code" none fun _ => do pure (some (← code held)))
        (Bytes.ofShort 1 ++ bytes.toList) (some value) := by
  obtain ⟨⟨bytecode, patched, good⟩, parts, handled⟩ :=
    program.accepted_iff_finish.mp ⟨bytes, pool, accepted⟩
  rw [run_codeAttribute, CodeBuilder.finish_of_patched _ _ patched good, handled] at accepted
  cases accepted
  have grows := Numbering.Gives.grows (fun _ => program.gives_attributeNames)
    (program.after program.body).2
  obtain ⟨named, table⟩ := (program.gives_attributeNames _).2 holds
  have constants := holds.of_grows grows
  have short : program.pcAfter program.body ≤ 0xFFFF := program.size_of_bytecode patched ▸ good.2
  have pendings := program.pendings_of_holds constants
  obtain ⟨handlers, entries, catches⟩ := exists_handlers short pendings handled
  have count : program.assembled.handlers.size = handlers.length := by
    rw [← catches.length_eq, pendings.length_eq, Array.length_toList]
    rfl
  have body := reads_attributeBody good entries count (catches.length_eq ▸ fewHandlers) table
    fewLines
  rw [Array.toList_append]
  refine ⟨_, ?_, reads_attributes_one named _ (body.map some)⟩
  exact ⟨constants, rfl, rfl, patched, catches, toNat_lineTable short⟩

end Program

/-! ## Methods -/

/-- The program of a method whose descriptor has been parsed. The name and the descriptor
have been numbered before it. -/
def methodProgram (flags : UInt16) (name descriptor : String) (body : List Line)
    (type : MethodType) (pool : PoolBuilder) : Program where
  slots := type.argSlots + if Access.has flags Access.isStatic then 0 else 1
  body
  pool := ((ClassBuilder.memberHeader flags name descriptor).run pool).2

/-- Whether a method is what a part of a class says that is added to a pool. -/
def Part.IsMethod (held : ConstantPool) (pool : PoolBuilder) : Part → MethodInfo → Prop
  | .method access name descriptor body, info =>
    info.flags = access ∧ info.name = name ∧ info.descriptor = descriptor ∧
      ∃ type code, MethodType.parse descriptor = .ok type ∧ info.code = some code ∧
        (methodProgram access name descriptor body type pool).IsCode held code
  | .bodiless access name descriptor, info =>
    info.flags = access ∧ info.name = name ∧ info.descriptor = descriptor ∧ info.code = none
  | _, _ => False

/-- Whether the counts of a body can be written. -/
def FewEntries (body : List Line) : Prop :=
  (body.filter Line.isHandler).length < 65536 ∧ (body.filterMap Line.sourceLine?).length < 65536

theorem Program.length_marksFrom (program : Program) (before rest : List Line) :
    (program.marksFrom before rest).length = (rest.filterMap Line.sourceLine?).length := by
  induction rest generalizing before with
  | nil => rfl
  | cons line rest ih =>
      rw [marksFrom, List.length_append, ih, List.length_map, List.filterMap_cons]
      cases line.sourceLine? with
      | none => exact Nat.zero_add _
      | some source => exact Nat.add_comm _ _

variable (flags : UInt16) (name descriptor : String)

/-- A method with a valid descriptor and no body is read back. -/
theorem gives_bodiless {type : MethodType} (valid : MethodType.parse descriptor = .ok type)
    (pool : PoolBuilder) :
    (ClassBuilder.memberHeader flags name descriptor).Gives held fun header =>
      ∃ info, Reads (method held) (header ++ Bytes.ofShort 0).toList info ∧
        (Part.bodiless flags name descriptor).IsMethod held pool info := by
  refine (gives_memberHeader flags name descriptor).mono fun header named => ?_
  refine ⟨⟨flags, name, descriptor, none⟩, ?_, rfl, rfl, rfl, rfl⟩
  rw [Array.toList_appendList]
  exact named.reads (Reads.lift_bind valid
    (reads_attributes_none.map (MethodInfo.mk flags name descriptor)))

variable (body : List Line) (pool : PoolBuilder)

/-- Encoding a method names it first, then assembles its body. -/
theorem run_methodBytes :
    (ClassBuilder.methodBytes flags name descriptor body).run.run pool =
      let named := (ClassBuilder.memberHeader flags name descriptor).run pool
      match MethodType.parse descriptor with
      | .error error => (.error error, named.2)
      | .ok type =>
        let program := methodProgram flags name descriptor body type pool
        match (codeAttribute program.slots program.body).run.run program.pool with
        | (.ok code, after) => (.ok (named.1 ++ Bytes.ofShort 1 ++ code), after)
        | (.error error, after) => (.error error, after) := by
  cases parsed : MethodType.parse descriptor with
  | error error =>
      simp only [ClassBuilder.methodBytes, parsed]
      rfl
  | ok type =>
      have coded (header : Array UInt8) (step : ExceptT LoadError Numbering (Array UInt8))
          (named : PoolBuilder) :
          (do pure (header ++ Bytes.ofShort 1 ++ (← step)) : ExceptT LoadError Numbering _).run.run
            named =
            match step.run.run named with
            | (.ok code, after) => (.ok (header ++ Bytes.ofShort 1 ++ code), after)
            | (.error error, after) => (.error error, after) := by
        rw [ExceptT.run_bind, StateT.run_bind]
        cases step.run.run named with
        | mk result after => cases result <;> rfl
      simp only [ClassBuilder.methodBytes, parsed]
      exact coded _ _ _

/-- Assembling a body only adds constants, also if it fails. -/
theorem grows_codeAttribute (program : Program) :
    program.pool.Grows ((codeAttribute program.slots program.body).run.run program.pool).2 := by
  have lines := program.grows_after program.body
  rw [Program.run_codeAttribute]
  cases patched : program.assembled.patched with
  | error error =>
      rw [CodeBuilder.finish_of_unpatched _ _ patched]
      exact lines
  | ok code =>
      by_cases good : CodeBuilder.GoodLength code.size
      · have names := Numbering.Gives.grows (fun _ => program.gives_attributeNames)
          (program.after program.body).2
        rw [CodeBuilder.finish_of_patched _ _ patched good]
        cases program.assembled.handlers.toList.mapM program.assembled.handlerBytes <;>
          exact lines.trans names
      · rw [CodeBuilder.finish_of_badLength _ _ patched good]
        exact lines

theorem grows_methodBytes :
    pool.Grows ((ClassBuilder.methodBytes flags name descriptor body).run.run pool).2 := by
  have named := Numbering.Gives.grows (fun _ => gives_memberHeader flags name descriptor) pool
  rw [run_methodBytes]
  cases MethodType.parse descriptor with
  | error error => exact named
  | ok type =>
      have coded := grows_codeAttribute (methodProgram flags name descriptor body type pool)
      dsimp only at coded ⊢
      split
      · next equal =>
          rw [equal] at coded
          exact named.trans coded
      · next equal =>
          rw [equal] at coded
          exact named.trans coded

/-- A method with a body is read back. -/
theorem exists_method {bytes : Array UInt8} {after : PoolBuilder}
    (encoded : (ClassBuilder.methodBytes flags name descriptor body).run.run pool =
      (.ok bytes, after)) (holds : held.Holds after) (few : FewEntries body) :
    ∃ info, Reads (method held) bytes.toList info ∧
      (Part.method flags name descriptor body).IsMethod held pool info := by
  rw [run_methodBytes] at encoded
  cases parsed : MethodType.parse descriptor with
  | error error =>
      rw [parsed] at encoded
      cases encoded
  | ok type =>
      rw [parsed] at encoded
      dsimp only at encoded
      split at encoded
      · next code _ accepted =>
          cases encoded
          have grows := grows_codeAttribute (methodProgram flags name descriptor body type pool)
          rw [accepted] at grows
          have header := (gives_memberHeader flags name descriptor pool).2 (holds.of_grows grows)
          have lines : (methodProgram flags name descriptor body type pool).lineTable.length =
              (body.filterMap Line.sourceLine?).length := by
            rw [Program.lineTable, List.length_map]
            exact Program.length_marksFrom _ [] body
          obtain ⟨value, isCode, read⟩ :=
            Program.exists_code _ accepted holds few.1 (lines ▸ few.2)
          refine ⟨⟨flags, name, descriptor, some value⟩, ?_, rfl, rfl, rfl, type, value, parsed,
            rfl, isCode⟩
          rw [Array.toList_append, Array.toList_appendList, List.append_assoc]
          exact header.reads (Reads.lift_bind parsed
            (read.map (MethodInfo.mk flags name descriptor)))
      · cases encoded

end Assembler

end Jvm
