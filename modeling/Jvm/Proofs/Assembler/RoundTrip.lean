import Jvm.Proofs.Assembler.Members

/-!
# Assembled classes read back

What is assembled is read back. The parts of a class are added one by one; each adds to the
constants, which keep their numbers, and its own bytes, which are read back with the
constants that there are in the end.
-/

namespace Jvm.Assembler

open ClassFile Cursor
open Reader (Reads ReadsLast)

/-! ## Parts -/

namespace Part

def flags? : Part → Option UInt16
  | .flags access => some access
  | _ => none

def interface? : Part → Option String
  | .interface name => some name
  | _ => none

def source? : Part → Option String
  | .source file => some file
  | _ => none

/-- Whether a part adds a field. -/
def isField : Part → Bool
  | .field .. => true
  | _ => false

/-- Whether a part adds a method. -/
def isMethod : Part → Bool
  | .method .. | .bodiless .. => true
  | _ => false

/-- Whether what assembling does not check can be read: descriptors of fields and of methods
without a body, and the counts of a body. -/
def Fits : Part → Prop
  | .field _ _ descriptor _ => ∃ type, Descriptor.fieldType descriptor = .ok type
  | .method _ _ _ body => FewEntries body
  | .bodiless _ _ descriptor => ∃ type, MethodType.parse descriptor = .ok type
  | _ => True

end Part

namespace ClassBuilder

/-- Parts with the constants that they are added to. -/
def stages (builder : ClassBuilder) : List Part → List (PoolBuilder × Part)
  | [] => []
  | part :: parts => (builder.pool, part) :: (builder.add part).stages parts

theorem map_stages (builder : ClassBuilder) (parts : List Part) :
    (builder.stages parts).map Prod.snd = parts := by
  induction parts generalizing builder with
  | nil => rfl
  | cons part parts ih => rw [stages, List.map_cons, ih]

variable {held : ConstantPool}

/-! ## Adding parts -/

theorem gives_source (file : String) :
    Numbering.Gives held (do
      let attributeName ← Numbering.utf8 "SourceFile"
      let file ← Numbering.utf8 file
      pure (attributeName, file)) fun numbers =>
        held.slot numbers.1 = .utf8 "SourceFile" ∧ held.slot numbers.2 = .utf8 file :=
  (Numbering.gives_utf8 "SourceFile").bind fun _ => (Numbering.gives_utf8 file).bind fun _ =>
    .pure fun text named => ⟨named, text⟩

section

variable (builder : ClassBuilder)

theorem grows_add (part : Part) : builder.pool.Grows (builder.add part).pool := by
  cases part with
  | flags flags => exact .refl _
  | interface name => exact Numbering.Gives.grows (fun _ => Numbering.gives_cls name) builder.pool
  | source file => exact Numbering.Gives.grows (fun _ => gives_source file) builder.pool
  | field flags name descriptor initial =>
      exact Numbering.Gives.grows
        (fun _ => gives_fieldBytes flags name descriptor initial) builder.pool
  | method flags name descriptor body =>
      have grows := grows_methodBytes flags name descriptor body builder.pool
      rw [add]
      split
      · next equal =>
          rw [equal] at grows
          exact grows
      · next equal =>
          rw [equal] at grows
          exact grows
  | bodiless flags name descriptor =>
      exact Numbering.Gives.grows (fun _ => gives_memberHeader flags name descriptor) builder.pool

theorem grows_foldl (parts : List Part) :
    builder.pool.Grows (parts.foldl add builder).pool := by
  induction parts generalizing builder with
  | nil => exact .refl _
  | cons part parts ih => exact (builder.grows_add part).trans (ih _)

/-- A fault stays. -/
theorem fault_of_add {part : Part} (faultless : (builder.add part).fault = none) :
    builder.fault = none := by
  cases part with
  | method flags name descriptor body =>
      rw [add] at faultless
      split at faultless
      · exact faultless
      · exact (Option.or_eq_none_iff.mp faultless).1
  | _ => exact faultless

theorem fault_of_foldl {parts : List Part} (faultless : (parts.foldl add builder).fault = none) :
    builder.fault = none := by
  induction parts generalizing builder with
  | nil => exact faultless
  | cons part parts ih => exact builder.fault_of_add (ih _ faultless)

/-- What one part adds to a list is added by the parts in order. -/
theorem exists_added {α β : Type} (view : ClassBuilder → List β)
    (pick : PoolBuilder × Part → Option α) {relation : α → β → Prop}
    (each : ∀ (builder : ClassBuilder) (part : Part), held.Holds (builder.add part).pool →
      (builder.add part).fault = none → part.Fits → ∃ added,
        view (builder.add part) = view builder ++ added ∧
          List.Forall₂ relation (pick (builder.pool, part)).toList added)
    {parts : List Part} (holds : held.Holds (parts.foldl add builder).pool)
    (faultless : (parts.foldl add builder).fault = none) (fits : ∀ part ∈ parts, part.Fits) :
    ∃ added, view (parts.foldl add builder) = view builder ++ added ∧
      List.Forall₂ relation ((builder.stages parts).filterMap pick) added := by
  induction parts generalizing builder with
  | nil => exact ⟨[], (List.append_nil _).symm, .nil⟩
  | cons part parts ih =>
      have grows := (builder.add part).grows_foldl parts
      obtain ⟨first, here, related⟩ := each builder part (holds.of_grows grows)
        ((builder.add part).fault_of_foldl faultless) (fits part (.head _))
      obtain ⟨rest, later, more⟩ := ih (builder.add part) holds faultless
        fun other member => fits other (.tail _ member)
      refine ⟨first ++ rest, by rw [← List.append_assoc, ← here]; exact later, ?_⟩
      have split : (builder.stages (part :: parts)).filterMap pick =
          (pick (builder.pool, part)).toList ++ ((builder.add part).stages parts).filterMap pick := by
        rw [stages, List.filterMap_cons]
        cases pick (builder.pool, part) <;> rfl
      rw [split]
      exact List.rel_append related more

theorem exists_interface {part : Part} (holds : held.Holds (builder.add part).pool) :
    ∃ added, (builder.add part).interfaces.toList = builder.interfaces.toList ++ added ∧
      List.Forall₂ (fun name index => held.className index = .ok name) part.interface?.toList
        added := by
  cases part with
  | interface name =>
      exact ⟨_, Array.toList_push, .cons ((Numbering.gives_cls name builder.pool).2 holds) .nil⟩
  | method flags name descriptor body =>
      refine ⟨[], ?_, .nil⟩
      rw [add]
      split <;> exact (List.append_nil _).symm
  | _ => exact ⟨[], (List.append_nil _).symm, .nil⟩

theorem exists_field {part : Part} (holds : held.Holds (builder.add part).pool)
    (fits : part.Fits) :
    ∃ added, (builder.add part).fields.toList = builder.fields.toList ++ added ∧
      List.Forall₂ (fun part bytes => ∃ info, Reads (field held) bytes.toList info ∧
        part.IsField held info) (Option.guard Part.isField part).toList added := by
  cases part with
  | field flags name descriptor initial =>
      obtain ⟨type, valid⟩ := fits
      exact ⟨_, Array.toList_push, .cons ((gives_fieldBytes flags name descriptor initial
        builder.pool).2 holds type valid) .nil⟩
  | method flags name descriptor body =>
      refine ⟨[], ?_, .nil⟩
      rw [add]
      split <;> exact (List.append_nil _).symm
  | _ => exact ⟨[], (List.append_nil _).symm, .nil⟩

theorem exists_method {part : Part} (holds : held.Holds (builder.add part).pool)
    (faultless : (builder.add part).fault = none) (fits : part.Fits) :
    ∃ added, (builder.add part).methods.toList = builder.methods.toList ++ added ∧
      List.Forall₂ (fun stage bytes => ∃ info, Reads (method held) bytes.toList info ∧
        stage.2.IsMethod held stage.1 info) (Option.guard (·.2.isMethod) (builder.pool, part)).toList
        added := by
  cases part with
  | method flags name descriptor body =>
      rw [add] at holds faultless ⊢
      split at holds
      · next bytes pool encoded =>
          exact ⟨_, Array.toList_push, .cons (Assembler.exists_method flags name descriptor body
            builder.pool encoded holds fits) .nil⟩
      · next error pool encoded =>
          rw [encoded] at faultless
          cases (Option.or_eq_none_iff.mp faultless).2
  | bodiless flags name descriptor =>
      obtain ⟨type, valid⟩ := fits
      exact ⟨_, Array.toList_push, .cons ((gives_bodiless flags name descriptor valid
        builder.pool builder.pool).2 holds) .nil⟩
  | _ => exact ⟨[], (List.append_nil _).symm, .nil⟩

/-- The file name of a source attribute, if there is one. -/
def IsSource (held : ConstantPool) : Option String → Option (UInt16 × UInt16) → Prop
  | none, none => True
  | some file, some numbers =>
    held.slot numbers.1 = .utf8 "SourceFile" ∧ held.slot numbers.2 = .utf8 file
  | _, _ => False

theorem isSource_add {part : Part} (holds : held.Holds (builder.add part).pool)
    {file : Option String} (is : IsSource held file builder.sourceFile) :
    IsSource held (part.source?.or file) (builder.add part).sourceFile := by
  cases part with
  | source file => exact (gives_source file builder.pool).2 holds
  | method flags name descriptor body =>
      rw [add]
      split <;> exact is
  | _ => exact is

/-- Parts do not change what a class starts as. -/
theorem classes_add (part : Part) : (builder.add part).thisClass = builder.thisClass ∧
    (builder.add part).superClass = builder.superClass := by
  cases part with
  | method flags name descriptor body =>
      rw [add]
      split <;> exact ⟨rfl, rfl⟩
  | _ => exact ⟨rfl, rfl⟩

theorem flags_add (part : Part) :
    (builder.add part).flags = part.flags?.getD builder.flags := by
  cases part with
  | method flags name descriptor body =>
      rw [add]
      split <;> rfl
  | _ => rfl

theorem isSource_foldl {parts : List Part} (holds : held.Holds (parts.foldl add builder).pool)
    (none : builder.sourceFile = none) :
    IsSource held (parts.filterMap Part.source?).getLast? (parts.foldl add builder).sourceFile := by
  induction parts using List.reverseRecOn with
  | nil =>
      rw [List.foldl_nil, none]
      trivial
  | append_singleton parts last ih =>
      rw [List.foldl_append] at holds ⊢
      have earlier := ih (holds.of_grows (grows_add _ last))
      have later := isSource_add _ holds earlier
      rw [List.filterMap_append, List.getLast?_append]
      cases source : last.source? with
      | none => simpa [source] using later
      | some file => simpa [source] using later

theorem classes_foldl (parts : List Part) :
    (parts.foldl add builder).thisClass = builder.thisClass ∧
      (parts.foldl add builder).superClass = builder.superClass := by
  induction parts generalizing builder with
  | nil => exact ⟨rfl, rfl⟩
  | cons part parts ih =>
      have first := builder.classes_add part
      have rest := ih (builder.add part)
      exact ⟨rest.1.trans first.1, rest.2.trans first.2⟩

theorem flags_foldl (parts : List Part) :
    (parts.foldl add builder).flags =
      (parts.filterMap Part.flags?).getLast?.getD builder.flags := by
  induction parts using List.reverseRecOn with
  | nil => rfl
  | append_singleton parts last ih =>
      rw [List.foldl_append, List.foldl_cons, List.foldl_nil, flags_add, ih,
        List.filterMap_append, List.getLast?_append]
      cases set : last.flags? <;> simp [set]

end

/-! ## Whole files -/

theorem memberBytes_toList (members : Array (Array UInt8)) :
    (memberBytes members).toList = Bytes.ofShort (UInt16.ofNat members.size) ++
      (members.toList.map Array.toList).flatten := by
  have go (members : List (Array UInt8)) (bytes : Array UInt8) :
      (members.foldl (· ++ ·) bytes).toList =
        bytes.toList ++ (members.map Array.toList).flatten := by
    induction members generalizing bytes with
    | nil => simp
    | cons member members ih => simp [ih]
  rw [memberBytes, ← Array.foldl_toList, go]

/-- The attributes of a class: its source file, if it has one. -/
def sourceBytes (builder : ClassBuilder) : List UInt8 :=
  match builder.sourceFile with
  | some (attributeName, file) =>
    Bytes.ofShort 1 ++ (Bytes.ofShort attributeName ++ Bytes.ofWord 2 ++ Bytes.ofShort file)
  | none => Bytes.ofShort 0

/-- The interfaces, the members and the attributes of a class. -/
def bodyBytes (builder : ClassBuilder) : List UInt8 :=
  (Bytes.ofShort (UInt16.ofNat builder.interfaces.size) ++
    builder.interfaces.toList.flatMap Bytes.ofShort) ++
    ((memberBytes builder.fields).toList ++ ((memberBytes builder.methods).toList ++
      builder.sourceBytes))

/-- A class without a fault is written section by section. -/
theorem exists_toBytes {builder : ClassBuilder} (faultless : builder.fault = none) :
    ∃ bytes : Array UInt8, builder.toBytes = .ok bytes ∧ bytes.toList =
      Bytes.ofWord 0xCAFEBABE ++ (Bytes.ofShort 0 ++ (Bytes.ofShort 52 ++
        (builder.pool.encode.toList ++ (Bytes.ofShort builder.flags ++
          (Bytes.ofShort builder.thisClass ++ (Bytes.ofShort builder.superClass ++
            builder.bodyBytes)))))) := by
  rw [toBytes, faultless]
  refine ⟨_, rfl, ?_⟩
  cases source : builder.sourceFile with
  | none => simp [bodyBytes, sourceBytes, source]
  | some numbers => simp [bodyBytes, sourceBytes, source]

theorem fault_of_toBytes {builder : ClassBuilder} {bytes : Array UInt8}
    (written : builder.toBytes = .ok bytes) : builder.fault = none := by
  rw [toBytes] at written
  split at written
  · cases written
  · assumption

theorem reads_sourceBytes {builder : ClassBuilder} {file : Option String}
    (is : IsSource held file builder.sourceFile) :
    Reads (attributes held "SourceFile" none fun _ => do pure (some (← textRef held)))
      builder.sourceBytes file := by
  rw [sourceBytes]
  cases source : builder.sourceFile with
  | none =>
      rw [source] at is
      cases file with
      | none => exact reads_attributes_none
      | some file => exact is.elim
  | some numbers =>
      rw [source] at is
      cases file with
      | none => exact is.elim
      | some file => exact reads_attributes_one is.1 2 ((reads_textRef is.2).map some)

/-- Whether a file has what a builder has: its constants, what these say of its numbers,
and members that its bytes are read as. -/
structure Writes (builder : ClassBuilder) (file : ClassFile) : Prop where
  version : file.majorVersion = 52
  constants : Reads constantPool builder.pool.encode.toList file.pool
  zero : file.pool.slot 0 = .empty
  flags : file.flags = builder.flags
  name : file.pool.className builder.thisClass = .ok file.name
  superclass : NamesClass file.pool builder.superClass file.superclass
  interfaces : List.Forall₂ (fun name index => file.pool.className index = .ok name)
    file.interfaces builder.interfaces.toList
  fields : List.Forall₂ (fun (bytes : Array UInt8) info => Reads (field file.pool) bytes.toList info)
    builder.fields.toList file.fields.toList
  methods : List.Forall₂
    (fun (bytes : Array UInt8) info => Reads (method file.pool) bytes.toList info)
    builder.methods.toList file.methods.toList
  source : IsSource file.pool file.sourceFile builder.sourceFile
  few : builder.interfaces.size < 65536 ∧ builder.fields.size < 65536 ∧
    builder.methods.size < 65536

theorem reads_members {α : Type} {read : Reader α} {members : Array (Array UInt8)}
    {values : Array α} (each : List.Forall₂ (fun (bytes : Array UInt8) value =>
      Reads read bytes.toList value) members.toList values.toList) (few : members.size < 65536) :
    Reads (counted read) (memberBytes members).toList values := by
  have each' := List.forall₂_map_left_iff.mpr each
  have reads := reads_counted each' (by rwa [List.length_map, Array.length_toList])
  rw [List.length_map, Array.length_toList, Array.toArray_toList] at reads
  rwa [memberBytes_toList]

/-- A written class is read section by section. -/
theorem Writes.readsLast {builder : ClassBuilder} {file : ClassFile}
    (writes : builder.Writes file) :
    ReadsLast reader (Bytes.ofWord 0xCAFEBABE ++ (Bytes.ofShort 0 ++ (Bytes.ofShort 52 ++
      (builder.pool.encode.toList ++ (Bytes.ofShort builder.flags ++
        (Bytes.ofShort builder.thisClass ++ (Bytes.ofShort builder.superClass ++
          builder.bodyBytes))))))) file := by
  rw [reader]
  refine ReadsLast.bind (reads_word _) ?_
  rw [if_neg (not_not.mpr rfl)]
  refine ReadsLast.bind (reads_short 0) (ReadsLast.bind (reads_short 52) ?_)
  rw [if_neg (by decide)]
  refine ReadsLast.bind writes.constants (ReadsLast.bind (reads_short _)
    (ReadsLast.bind (reads_classRef writes.name) (ReadsLast.bind (reads_short _) ?_)))
  extract_lets rest
  have tail : ReadsLast (rest file.superclass) builder.bodyBytes file := by
    have interfaces : List.Forall₂ (Reads (classRef file.pool))
        (builder.interfaces.toList.map Bytes.ofShort) file.interfaces :=
      List.forall₂_map_left_iff.mpr (writes.interfaces.flip.imp fun _ _ => reads_classRef)
    have counted := reads_counted interfaces (by simpa using writes.few.1)
    rw [List.length_map, Array.length_toList, ← List.flatMap_def] at counted
    rw [bodyBytes, ← List.append_nil builder.sourceBytes]
    refine ReadsLast.bind counted (ReadsLast.bind (reads_members writes.fields writes.few.2.1)
      (ReadsLast.bind (reads_members writes.methods writes.few.2.2)
        (ReadsLast.bind (reads_sourceBytes writes.source) (readsLast_end ?_))))
    rw [← writes.version, ← writes.flags]
  cases above : file.superclass with
  | none =>
      have index : builder.superClass = 0 := by
        have index := writes.superclass
        rwa [above] at index
      rw [above] at tail
      rw [if_pos index]
      exact tail
  | some name =>
      have named : file.pool.className builder.superClass = .ok name := by
        have named := writes.superclass
        rwa [above] at named
      have some : builder.superClass ≠ 0 := by
        intro zero
        rw [zero, ConstantPool.className, ConstantPool.get, writes.zero] at named
        cases named
      rw [above] at tail
      rw [if_neg some]
      exact ReadsLast.lift_bind named tail

theorem gives_start (name : String) (superclass : Option String) :
    Numbering.Gives held (do
      let this ← Numbering.cls name
      let above ←
        match superclass with
        | some superclass => Numbering.cls superclass
        | none => pure 0
      pure (this, above)) fun numbers =>
        held.className numbers.1 = .ok name ∧ NamesClass held numbers.2 superclass := by
  refine (Numbering.gives_cls name).bind fun this => ?_
  cases superclass with
  | none => exact .pure fun named => ⟨named, rfl⟩
  | some superclass =>
      exact (Numbering.gives_cls superclass).bind fun above =>
        .pure fun extended named => ⟨named, extended⟩

theorem exists_start (name : String) (superclass : Option String) : ∃ this above pool,
    start name superclass =
        { pool, flags := Access.isPublic ||| Access.hasSuper, thisClass := this
          superClass := above } ∧
      pool.Counted ∧ ∀ held : ConstantPool, held.Holds pool →
        held.className this = .ok name ∧ NamesClass held above superclass := by
  have given := fun held => @gives_start held name superclass {}
  unfold start
  dsimp only
  generalize StateT.run _ _ = numbered at given ⊢
  obtain ⟨⟨this, above⟩, pool⟩ := numbered
  exact ⟨this, above, pool, rfl, (given {}).1.counted PoolBuilder.counted_empty,
    fun held => (given held).2⟩

end ClassBuilder

namespace ClassSpec

/-- What a class starts as. -/
def start (spec : ClassSpec) : ClassBuilder :=
  if spec.isInterface then .startInterface spec.name else .start spec.name spec.superclass

/-- The name of the superclass, which for an interface is given. -/
def superclassName (spec : ClassSpec) : Option String :=
  if spec.isInterface then some "java/lang/Object" else spec.superclass

/-- The flags of a class that sets none. -/
def startFlags (spec : ClassSpec) : UInt16 :=
  if spec.isInterface then Access.isPublic ||| Access.isInterface ||| Access.isAbstract
  else Access.isPublic ||| Access.hasSuper

/-- The parts of a class with the constants that they are added to. -/
def stages (spec : ClassSpec) : List (PoolBuilder × Part) := spec.start.stages spec.parts

/-- Whether a class fits the format: its parts do, its texts are short, and there are numbers
for its constants and its members. -/
structure Fits (spec : ClassSpec) : Prop where
  parts : ∀ part ∈ spec.parts, part.Fits
  texts : ∀ item ∈ spec.builder.pool.items.toList, item.FitsText
  slots : spec.builder.pool.slots < 65536
  interfaces : (spec.parts.filterMap Part.interface?).length < 65536
  fields : (spec.parts.filter Part.isField).length < 65536
  methods : (spec.parts.filter Part.isMethod).length < 65536

/-- Whether a class file holds what was assembled. -/
structure Records (spec : ClassSpec) (file : ClassFile) : Prop where
  version : file.majorVersion = 52
  flags : file.flags = (spec.parts.filterMap Part.flags?).getLast?.getD spec.startFlags
  name : file.name = spec.name
  superclass : file.superclass = spec.superclassName
  interfaces : file.interfaces = spec.parts.filterMap Part.interface?
  fields : List.Forall₂ (Part.IsField file.pool) (spec.parts.filter Part.isField)
    file.fields.toList
  methods : List.Forall₂ (fun stage info => stage.2.IsMethod file.pool stage.1 info)
    (spec.stages.filter (·.2.isMethod)) file.methods.toList
  source : file.sourceFile = (spec.parts.filterMap Part.source?).getLast?
  size : file.pool.size = spec.builder.pool.slots
  constants : file.pool.Holds spec.builder.pool
  seconds : ∀ (item : Constant) (number : UInt16), spec.builder.pool.numbers[item]? = some number →
    item.width = 2 → file.pool.slot (number + 1) = .empty
  others : ∀ slot, (∀ item : Constant, spec.builder.pool.numbers[item]? ≠ some slot) →
    file.pool.slot slot = .empty

variable (spec : ClassSpec)

theorem builder_eq : spec.builder = spec.parts.foldl ClassBuilder.add spec.start := rfl

/-- A class starts with the constants that name it and its superclass, and without members. -/
theorem start_eq : ∃ this above pool,
    spec.start = { pool, flags := spec.startFlags, thisClass := this, superClass := above } ∧
      pool.Counted ∧ ∀ held : ConstantPool, held.Holds pool →
        held.className this = .ok spec.name ∧ NamesClass held above spec.superclassName := by
  unfold start startFlags superclassName
  split
  · obtain ⟨this, above, pool, started, counted, named⟩ :=
      ClassBuilder.exists_start spec.name (some "java/lang/Object")
    refine ⟨this, above, pool, ?_, counted, named⟩
    rw [ClassBuilder.startInterface, started]
  · exact ClassBuilder.exists_start spec.name spec.superclass

theorem members_start : spec.start.interfaces = #[] ∧ spec.start.fields = #[] ∧
    spec.start.methods = #[] ∧ spec.start.sourceFile = none ∧
      spec.start.flags = spec.startFlags := by
  obtain ⟨this, above, pool, started, -⟩ := spec.start_eq
  rw [started]
  exact ⟨rfl, rfl, rfl, rfl, rfl⟩

theorem named_start {held : ConstantPool} (holds : held.Holds spec.builder.pool) :
    held.className spec.start.thisClass = .ok spec.name ∧
      NamesClass held spec.start.superClass spec.superclassName := by
  have grows := spec.start.grows_foldl spec.parts
  obtain ⟨this, above, pool, started, -, named⟩ := spec.start_eq
  rw [started] at grows ⊢
  exact named held (ConstantPool.Holds.of_grows (by rwa [builder_eq, started] at holds) grows)

theorem counted_builder : spec.builder.pool.Counted := by
  obtain ⟨this, above, pool, started, counted, -⟩ := spec.start_eq
  rw [builder_eq, started]
  exact (ClassBuilder.grows_foldl _ spec.parts).counted counted

/-- What is picked from the stages of a class by their parts is picked from its parts. -/
theorem filterMap_stages {α : Type} (pick : Part → Option α) :
    spec.stages.filterMap (fun stage => pick stage.2) = spec.parts.filterMap pick := by
  conv_rhs => rw [← spec.start.map_stages spec.parts, List.filterMap_map]
  rfl

/-- What is related through a third list gives that list. -/
theorem exists_forall₂ {α β γ : Type} {left : β → γ → Prop} {right : α → γ → Prop}
    {firsts : List α} {seconds : List β}
    (each : List.Forall₂ (fun first second => ∃ third, left second third ∧ right first third)
      firsts seconds) :
    ∃ thirds, List.Forall₂ left seconds thirds ∧ List.Forall₂ right firsts thirds := by
  induction each with
  | nil => exact ⟨[], .nil, .nil⟩
  | cons here _ ih =>
      obtain ⟨third, before, behind⟩ := here
      obtain ⟨thirds, lefts, rights⟩ := ih
      exact ⟨third :: thirds, .cons before lefts, .cons behind rights⟩

variable {spec}

/-- A class without a fault that fits the format is written as a file that holds what was
assembled. -/
theorem Fits.exists_file (fits : spec.Fits) (faultless : spec.builder.fault = none) :
    ∃ file, spec.builder.Writes file ∧ spec.Records file := by
  have counted := spec.counted_builder
  have holds : spec.builder.pool.filled.Holds spec.builder.pool := fun item number numbered =>
    PoolBuilder.slot_of_numbered counted fits.slots numbered
  obtain ⟨noInterfaces, noFields, noMethods, noSource, startFlags⟩ := spec.members_start
  obtain ⟨interfaces, interfaces_eq, areInterfaces⟩ := spec.start.exists_added
    (fun builder => builder.interfaces.toList) (fun stage => stage.2.interface?)
    (fun builder _ holds _ _ => builder.exists_interface holds) holds faultless fits.parts
  obtain ⟨fields, fields_eq, areFields⟩ := spec.start.exists_added
    (fun builder => builder.fields.toList) (fun stage => Option.guard Part.isField stage.2)
    (fun builder _ holds _ => builder.exists_field holds) holds faultless fits.parts
  obtain ⟨methods, methods_eq, areMethods⟩ := spec.start.exists_added
    (fun builder => builder.methods.toList) (Option.guard (·.2.isMethod))
    (fun builder _ => builder.exists_method) holds faultless fits.parts
  rw [noInterfaces, List.nil_append, ← builder_eq] at interfaces_eq
  rw [noFields, List.nil_append, ← builder_eq] at fields_eq
  rw [noMethods, List.nil_append, ← builder_eq] at methods_eq
  rw [← stages, filterMap_stages] at areInterfaces areFields
  rw [← stages] at areMethods
  rw [List.filterMap_eq_filter] at areFields areMethods
  obtain ⟨fieldInfos, readFields, areFields⟩ := exists_forall₂ areFields
  obtain ⟨methodInfos, readMethods, areMethods⟩ := exists_forall₂ areMethods
  obtain ⟨isName, isSuper⟩ := spec.named_start holds
  obtain ⟨thisClass, superClass⟩ := spec.start.classes_foldl spec.parts
  have fewMethods : (spec.stages.filter (·.2.isMethod)).length < 65536 := by
    have few := fits.methods
    rwa [← spec.start.map_stages spec.parts, List.filter_map, List.length_map] at few
  refine ⟨{
    majorVersion := 52, pool := spec.builder.pool.filled, flags := spec.builder.flags
    name := spec.name, superclass := spec.superclassName
    interfaces := spec.parts.filterMap Part.interface?, fields := fieldInfos.toArray
    methods := methodInfos.toArray
    sourceFile := (spec.parts.filterMap Part.source?).getLast? }, ?_, ?_⟩
  · constructor
    case version | flags => rfl
    case constants => exact ClassFile.reads_constantPool counted fits.texts fits.slots
    case zero => exact PoolBuilder.slot_zero counted fits.slots
    case name => exact thisClass ▸ isName
    case superclass => exact superClass ▸ isSuper
    case interfaces => exact interfaces_eq ▸ areInterfaces
    case fields => exact fields_eq ▸ readFields
    case methods => exact methods_eq ▸ readMethods
    case source => exact spec.start.isSource_foldl holds noSource
    case few =>
      rw [← Array.length_toList, ← Array.length_toList, ← Array.length_toList, interfaces_eq,
        fields_eq, methods_eq, ← areInterfaces.length_eq, readFields.length_eq,
        readMethods.length_eq, ← areFields.length_eq, ← areMethods.length_eq]
      exact ⟨fits.interfaces, fits.fields, fewMethods⟩
  · constructor
    case version | name | superclass | interfaces | source => rfl
    case flags => exact startFlags ▸ spec.start.flags_foldl spec.parts
    case fields => exact areFields
    case methods => exact areMethods
    case size => exact PoolBuilder.size_filled counted fits.slots
    case constants => exact holds
    case seconds =>
      exact fun item number numbered => PoolBuilder.slot_behind counted fits.slots numbered
    case others => exact fun slot => PoolBuilder.slot_of_unnumbered counted fits.slots

/-- Whatever is assembled is read back: if a class that fits the format is written, the bytes
are parsed as a class file that holds what was assembled. -/
theorem parse_assemble (spec : ClassSpec) (fits : spec.Fits) (bytes : Array UInt8)
    (written : spec.assemble = .ok bytes) :
    ∃ file, ClassFile.parse bytes = .ok file ∧ spec.Records file := by
  have faultless := ClassBuilder.fault_of_toBytes written
  obtain ⟨file, writes, records⟩ := fits.exists_file faultless
  obtain ⟨same, written', sections⟩ := ClassBuilder.exists_toBytes faultless
  cases written.symm.trans written'
  exact ⟨file, ClassFile.parse_of_readsLast (sections ▸ writes.readsLast), records⟩

/-- A body that loops over a long constant, with a source line and a handler. -/
def looping : List Line :=
  [.bind "top", .sourceLine 7, .long 9, .branch .gotoNear "top", .bind "end",
    .handler "top" "end" "top" none]

/-- The code of the loop with the number of its constant. -/
def loopingCode (number : UInt16) : CodeBuilder where
  code := #[0x14, (number >>> 8).toUInt8, number.toUInt8, 0xA7, 0, 0]
  labels := ["top", "top", "end", "top", "end", "top"]
  bindings := [("end", 6), ("top", 0)]
  fixups := #[⟨3, 4, "top", false⟩]
  handlers := #[⟨"top", "end", "top", 0⟩]
  lines := #[(0, 7)]

theorem after_looping {program : Program} (slots : program.slots = 0)
    (body : program.body = looping) :
    program.after program.body =
      (loopingCode (program.pool.add (.long 9)).1, (program.pool.add (.long 9)).2) := by
  rw [body, Program.after, slots, body]
  rfl

theorem exists_finished (number : UInt16) (pool : PoolBuilder) :
    ∃ bytes, (loopingCode number).finish.run.run pool =
      (.ok bytes, ((pool.add (.utf8 "Code")).2.add (.utf8 "LineNumberTable")).2) := by
  obtain ⟨code, patched, size⟩ :
      ∃ code, (loopingCode number).patched = .ok code ∧ code.size = 6 := ⟨_, rfl, rfl⟩
  obtain ⟨parts, handled⟩ : ∃ parts, (loopingCode number).handlers.toList.mapM
      (loopingCode number).handlerBytes = .ok parts := ⟨_, rfl⟩
  rw [CodeBuilder.finish_of_patched _ _ patched ⟨by omega, by omega⟩, handled]
  exact ⟨_, rfl⟩

theorem parse_unit : MethodType.parse "()V" = .ok ⟨[], none, 0⟩ := by
  have params : MethodType.params? "()V" [')', 'V'] = .ok ([], ['V']) := by
    rw [MethodType.params?]
    rfl
  change (MethodType.params? "()V" [')', 'V'] >>= _) = _
  rw [params]
  rfl

/-- Adding the loop numbers its name and descriptor, its constant and its attributes. -/
theorem add_looping (builder : ClassBuilder) :
    ∃ bytes, builder.add (.method 8 "f" "()V" looping) =
      { builder with
        pool := ([.utf8 "f", .utf8 "()V", .long 9, .utf8 "Code", .utf8 "LineNumberTable"] :
          List Constant).foldl (fun pool item => (pool.add item).2) builder.pool
        methods := builder.methods.push bytes } := by
  have coded (program : Program) (slots : program.slots = 0) (body : program.body = looping) :
      ∃ bytes, (codeAttribute program.slots program.body).run.run program.pool =
        (.ok bytes, (((program.pool.add (.long 9)).2.add (.utf8 "Code")).2.add
          (.utf8 "LineNumberTable")).2) := by
    rw [program.run_codeAttribute, Program.assembled, after_looping slots body]
    exact exists_finished _ _
  obtain ⟨bytes, finished⟩ :=
    coded (methodProgram 8 "f" "()V" looping ⟨[], none, 0⟩ builder.pool) rfl rfl
  have encoded := run_methodBytes 8 "f" "()V" looping builder.pool
  rw [parse_unit] at encoded
  dsimp only at encoded
  rw [finished] at encoded
  rw [ClassBuilder.add, encoded]
  exact ⟨_, rfl⟩

/-- A class with a member of each kind, whose long constant is used twice. -/
def looper : ClassSpec where
  name := "A"
  superclass := none
  parts := [.interface "B", .source "A", .field 8 "x" "J" (some (.long 9)),
    .bodiless 0x401 "g" "()V", .method 8 "f" "()V" looping]

def looperItems : List Constant :=
  [.utf8 "A", .cls 1, .utf8 "B", .cls 3, .utf8 "SourceFile", .utf8 "x", .utf8 "J",
    .utf8 "ConstantValue", .long 9, .utf8 "g", .utf8 "()V", .utf8 "f", .utf8 "Code",
    .utf8 "LineNumberTable"]

/-! Numbering is a function of the pool. -/

section Running

variable {α β : Type} (pool : PoolBuilder)

theorem run_item (constant : Constant) :
    StateT.run (Numbering.item constant) pool = pool.add constant := rfl

theorem run_pure (value : α) : StateT.run (pure value : Numbering α) pool = (value, pool) := rfl

theorem run_bind (step : Numbering α) (next : α → Numbering β) :
    StateT.run (step >>= next) pool = (next (step.run pool).1).run (step.run pool).2 := rfl

end Running

theorem builder_looper :
    looper.builder.fault = none ∧ looper.builder.pool.items.toList = looperItems := by
  have last : looper.builder = (looper.parts.dropLast.foldl ClassBuilder.add looper.start).add
      (.method 8 "f" "()V" looping) := rfl
  obtain ⟨bytes, added⟩ := add_looping (looper.parts.dropLast.foldl ClassBuilder.add looper.start)
  rw [last, added]
  -- The numbering is run by its own lemmas, which leave no pairing of pools behind.
  simp [looper, start, ClassBuilder.start, Numbering.cls, Numbering.utf8, PoolBuilder.add,
    ClassBuilder.fieldBytes, ClassBuilder.memberHeader, Initial.number, ClassBuilder.add,
    PoolBuilder.fresh, run_item, run_pure, run_bind, Constant.width, looperItems,
    -StateT.run_bind, -StateT.run_pure, -bind_pure_comp]

theorem fits_looper : looper.Fits where
  parts := by
    intro part member
    simp only [looper, List.mem_cons, List.not_mem_nil, or_false] at member
    rcases member with rfl | rfl | rfl | rfl | rfl
    · trivial
    · trivial
    · exact ⟨.primitive .long, rfl⟩
    · exact ⟨⟨[], none, 0⟩, parse_unit⟩
    · exact ⟨by decide, by decide⟩
  texts := by
    rw [builder_looper.2]
    simp [looperItems, Constant.FitsText, Text.utf8]
    decide
  slots := by
    rw [PoolBuilder.slots, builder_looper.2]
    decide
  interfaces := by decide
  fields := by decide
  methods := by decide

theorem parse_assemble_looper :
    looper.Fits ∧ ∃ bytes file, looper.assemble = .ok bytes ∧ ClassFile.parse bytes = .ok file ∧
      looper.Records file := by
  obtain ⟨bytes, written, -⟩ := ClassBuilder.exists_toBytes builder_looper.1
  obtain ⟨file, parsed, records⟩ := parse_assemble looper fits_looper bytes written
  exact ⟨fits_looper, bytes, file, written, parsed, records⟩

end ClassSpec

end Jvm.Assembler
