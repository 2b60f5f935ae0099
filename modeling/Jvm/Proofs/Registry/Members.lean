import Jvm.Proofs.Assembler.Program
import Jvm.Proofs.Registry.Known

/-!
# Members of linked classes

A class that is linked from a file has the members of the file, in their order and with
their flags, names and descriptors. So what is found in a class is told by the outline of its
file, and a file whose descriptors are well-formed is linked as soon as its ancestors are
known.
-/

namespace Jvm

open ClassTable

/-! ## Signatures -/

/-- Flags, name and descriptor of a member. -/
structure Signature where
  flags : UInt16
  name : String
  descriptor : String
  deriving DecidableEq

namespace Signature

/-- Whether a member has a name and a descriptor. -/
def matches? (name descriptor : String) (signature : Signature) : Bool :=
  signature.name == name && signature.descriptor == descriptor

def ofFieldInfo (info : FieldInfo) : Signature := ⟨info.flags, info.name, info.descriptor⟩

def ofMethodInfo (info : MethodInfo) : Signature := ⟨info.flags, info.name, info.descriptor⟩

def ofField (field : Field) : Signature := ⟨field.flags, field.name, field.descriptor⟩

def ofMethod (method : Method) : Signature := ⟨method.flags, method.name, method.descriptor⟩

end Signature

namespace Class

def fieldSignatures (cls : Class) : List Signature := cls.fields.map .ofField

def methodSignatures (cls : Class) : List Signature := cls.methods.toList.map .ofMethod

/-- Methods are found by their signatures. -/
theorem declaredMethod?_eq (cls : Class) (name descriptor : String) :
    cls.declaredMethod? name descriptor =
      (cls.methodSignatures.findIdx? (Signature.matches? name descriptor)).map fun index =>
        ⟨cls.id, UInt16.ofNat index⟩ := by
  rw [declaredMethod?, methodSignatures, List.findIdx?_map, ← List.findIdx?_toArray,
    Array.toArray_toList]
  rfl

/-- A method has the signature at its place. -/
theorem ofMethod_of_methodSignatures {cls : Class} {index : Nat} {signature : Signature}
    (found : cls.methodSignatures[index]? = some signature) :
    Signature.ofMethod (cls.methods.getD index default) = signature := by
  rw [methodSignatures, List.getElem?_map, Array.getElem?_toList, Option.map_eq_some_iff] at found
  obtain ⟨method, held, rfl⟩ := found
  rw [Array.getD_eq_getD_getElem?, held]
  rfl

end Class

/-! ## Linking -/

/-- Slots and reference slots of instances and of the class itself. -/
def Class.slots (cls : Class) : Layout where
  instanceSlots := cls.instanceSlots
  refSlots := cls.refSlots
  staticSlots := cls.staticSlots
  staticRefSlots := cls.staticRefSlots

theorem Layout.signature_of_place {layout after : Layout} {info : FieldInfo} {field : Field}
    (placed : layout.place info = .ok (field, after)) :
    Signature.ofField field = Signature.ofFieldInfo info := by
  unfold place at placed
  split at placed
  next => cases placed
  next =>
      dsimp only at placed
      split at placed <;> cases placed <;> rfl

theorem Layout.signatures_of_placeAll {layout after : Layout} {infos : List FieldInfo}
    {fields : List Field} (placed : layout.placeAll infos = .ok (fields, after)) :
    fields.map Signature.ofField = infos.map Signature.ofFieldInfo := by
  induction infos generalizing layout fields with
  | nil =>
      cases placed
      rfl
  | cons info rest ih =>
      simp only [placeAll, Except.bind_eq_ok, pure, Except.pure, Except.ok.injEq] at placed
      obtain ⟨⟨field, between⟩, first, ⟨others, last⟩, second, same⟩ := placed
      cases same
      rw [List.map_cons, List.map_cons, signature_of_place first, ih second]

theorem Layout.exists_placeAll (layout : Layout) {infos : List FieldInfo}
    (described : ∀ info ∈ infos, (Kind.ofDescriptor info.descriptor).isSome) :
    ∃ placed, layout.placeAll infos = .ok placed := by
  induction infos generalizing layout with
  | nil => exact ⟨([], layout), rfl⟩
  | cons info rest ih =>
      obtain ⟨kind, found⟩ := Option.isSome_iff_exists.mp (described info (.head _))
      obtain ⟨⟨field, between⟩, first⟩ : ∃ placed, layout.place info = .ok placed := by
        simp only [place, found]
        split <;> exact ⟨_, rfl⟩
      obtain ⟨⟨others, last⟩, second⟩ := ih between fun info later => described info (.tail _ later)
      refine ⟨(field :: others, last), ?_⟩
      simp only [placeAll, first, second, bind, Except.bind]
      rfl

namespace Class

variable {id : ClassId} {file : ClassFile} {superclass : Option Class} {interfaces : List ClassId}
  {cls : Class}

theorem placeAll_of_link (linked : Class.link id file superclass interfaces = .ok cls) :
    (Layout.below superclass).placeAll file.fields.toList = .ok (cls.fields, cls.slots) := by
  simp only [Class.link, Except.bind_eq_ok, pure, Except.pure, Except.ok.injEq] at linked
  obtain ⟨⟨fields, layout⟩, placed, methods, -, rfl⟩ := linked
  exact placed

theorem fieldSignatures_of_link (linked : Class.link id file superclass interfaces = .ok cls) :
    cls.fieldSignatures = file.fields.toList.map .ofFieldInfo :=
  Layout.signatures_of_placeAll (placeAll_of_link linked)

theorem methodSignatures_of_link (linked : Class.link id file superclass interfaces = .ok cls) :
    cls.methodSignatures = file.methods.toList.map .ofMethodInfo := by
  simp only [Class.link, Except.bind_eq_ok, pure, Except.pure, Except.ok.injEq] at linked
  obtain ⟨-, -, methods, each, rfl⟩ := linked
  have same := mapM_eq_ok_iff.mp each
  rw [methodSignatures, List.toList_toArray, ← List.forall₂_eq_eq_eq, List.forall₂_map_left_iff,
    List.forall₂_map_right_iff]
  refine List.Forall₂.flip (same.imp fun info method ran => ?_)
  simp only [Method.link, Except.bind_eq_ok, pure, Except.pure, Except.ok.injEq] at ran
  obtain ⟨type, -, rfl⟩ := ran
  rfl

end Class

/-! ## Outlines of files -/

namespace ClassFile

/-- What a class file tells of a class and its members, but for the code. -/
structure Outline where
  flags : UInt16
  name : String
  superclass : Option String := some objectName
  interfaces : List String := []
  fields : List Signature := []
  methods : List Signature := []
  deriving DecidableEq

/-- The outline of a class file. -/
def outline (file : ClassFile) : Outline where
  flags := file.flags
  name := file.name
  superclass := file.superclass
  interfaces := file.interfaces
  fields := file.fields.toList.map .ofFieldInfo
  methods := file.methods.toList.map .ofMethodInfo

theorem exists_outline {read : Except LoadError ClassFile} {outline : Outline}
    (shown : read.toOption.map ClassFile.outline = some outline) :
    ∃ file, read = .ok file ∧ file.outline = outline := by
  cases read with
  | error error => cases shown
  | ok file => exact ⟨file, rfl, Option.some.inj shown⟩

namespace Outline

/-- A root without members. -/
def root : Outline where
  flags := Access.isPublic ||| Access.hasSuper
  name := objectName
  superclass := none

/-- Whether the descriptors of all members are well-formed. -/
def isDescribed (outline : Outline) : Bool :=
  outline.fields.all (fun field => (Kind.ofDescriptor field.descriptor).isSome) &&
    outline.methods.all fun method => (MethodType.parse method.descriptor).toOption.isSome

/-- The bytes of a file with an outline. Methods that are not abstract have the code that is
given. -/
def bytes (outline : Outline) (code : List UInt8) : Array UInt8 :=
  let short (number : Nat) : List UInt8 := Bytes.ofShort (UInt16.ofNat number)
  let text (text : String) : List UInt8 :=
    1 :: short (Text.utf8 text).length ++ Text.utf8 text
  let classes := outline.name :: outline.superclass.toList ++ outline.interfaces
  let members := outline.fields ++ outline.methods
  -- a class takes two constants, a member as well
  let classIndex (place : Nat) : List UInt8 := short (2 * place + 2)
  let nameIndex (place : Nat) : List UInt8 :=
    short (2 * classes.length + 2 * place + 2) ++ short (2 * classes.length + 2 * place + 3)
  let constants :=
    (classes.mapIdx fun place name => text name ++ 7 :: short (2 * place + 1)).flatten ++
      text "Code" ++ members.flatMap fun member => text member.name ++ text member.descriptor
  let body : List UInt8 :=
    short 1 ++ short (2 * classes.length + 1) ++ Bytes.ofWord (UInt32.ofNat (code.length + 12)) ++
      short 2 ++ short 2 ++ Bytes.ofWord (UInt32.ofNat code.length) ++ code ++ short 0 ++ short 0
  let above := outline.superclass.toList.length
  (Bytes.ofWord 0xCAFEBABE ++ short 0 ++ short 52 ++
    short (2 * classes.length + 2 * members.length + 2) ++ constants ++
    Bytes.ofShort outline.flags ++ classIndex 0 ++ (if above = 0 then short 0 else classIndex 1) ++
    short outline.interfaces.length ++
    (outline.interfaces.mapIdx fun place _ => classIndex (above + place + 1)).flatten ++
    short outline.fields.length ++
    (outline.fields.mapIdx fun place field =>
      Bytes.ofShort field.flags ++ nameIndex place ++ short 0).flatten ++
    short outline.methods.length ++
    (outline.methods.mapIdx fun place method =>
      Bytes.ofShort method.flags ++ nameIndex (outline.fields.length + place) ++
        if Access.has method.flags Access.isAbstract then short 0 else body).flatten ++
    short 0).toArray

/-- Whether a table knows the ancestors that an outline names, each being of its sort. -/
def Above (outline : Outline) (table : ClassTable) (superclass : Option ClassId)
    (interfaces : List ClassId) : Prop :=
  (match outline.superclass, superclass with
    | some name, some id => table.Knows false name id
    | none, none => outline.name = objectName
    | _, _ => False) ∧
  List.Forall₂ (table.Knows true) outline.interfaces interfaces

/-- Whether a class is linked from a file with an outline. -/
def Links (outline : Outline) (id : ClassId) (superclass : Option Class)
    (interfaces : List ClassId) (cls : Class) : Prop :=
  ∃ file : ClassFile, file.outline = outline ∧
    Class.link id file superclass interfaces = .ok cls

variable {outline : Outline} {table : ClassTable} {id : ClassId} {interfaces : List ClassId}

theorem Above.of_outline {above : Option ClassId} (known : outline.Above table above interfaces)
    {file : ClassFile} (same : file.outline = outline) : file.Above table above interfaces := by
  subst same
  obtain ⟨nearest, declared⟩ := known
  simp only [ClassFile.outline] at nearest declared
  refine ⟨fun name named => ?_, fun missing => ?_, declared⟩
  · rw [named] at nearest
    cases above with
    | none => exact nearest.elim
    | some id => exact ⟨id, rfl, nearest⟩
  · rw [missing] at nearest
    cases above with
    | none => exact ⟨rfl, nearest⟩
    | some id => exact nearest.elim

theorem exists_links {file : ClassFile} (same : file.outline = outline)
    (described : outline.isDescribed = true) (id : ClassId) (above : Option Class)
    (interfaces : List ClassId) : ∃ cls, Class.link id file above interfaces = .ok cls := by
  subst same
  simp only [isDescribed, ClassFile.outline, List.all_map, Bool.and_eq_true, List.all_eq_true]
    at described
  obtain ⟨⟨fields, layout⟩, placed⟩ := (Layout.below above).exists_placeAll described.1
  obtain ⟨methods, linked⟩ : ∃ methods, file.methods.toList.mapM (Method.link id) = .ok methods := by
    refine exists_mapM_eq_ok fun info member => ?_
    have parsed := described.2 info member
    cases ran : MethodType.parse info.descriptor with
    | error error => simp [Signature.ofMethodInfo, ran, Except.toOption] at parsed
    | ok type =>
        simp only [Method.link, ran]
        exact ⟨_, rfl⟩
  simp only [Class.link, placed, linked]
  exact ⟨_, rfl⟩

/-! ### Classes of an outline -/

namespace Links

variable {superclass : Option Class} {cls : Class}
  (links : outline.Links id superclass interfaces cls)

include links

theorem linked : ∃ file : ClassFile, file.outline = outline ∧
    Linking.Links id file superclass interfaces cls :=
  let ⟨file, same, linked⟩ := links
  ⟨file, same, Linking.links_of_link linked⟩

theorem id_eq : cls.id = id :=
  let ⟨_, _, linked⟩ := links.linked
  linked.id

theorem name : cls.name = outline.name :=
  let ⟨_, same, linked⟩ := links.linked
  same ▸ linked.name

theorem flags : cls.flags = outline.flags :=
  let ⟨_, same, linked⟩ := links.linked
  same ▸ linked.flags

theorem superclass_eq : cls.superclass = superclass.map (·.id) :=
  let ⟨_, _, linked⟩ := links.linked
  linked.superclass

theorem interfaces_eq : cls.interfaces = interfaces :=
  let ⟨_, _, linked⟩ := links.linked
  linked.interfaces

theorem array : cls.array = none :=
  let ⟨_, _, linked⟩ := links.linked
  linked.array

theorem fields : cls.fieldSignatures = outline.fields :=
  let ⟨_, same, linked⟩ := links
  same ▸ Class.fieldSignatures_of_link linked

theorem methods : cls.methodSignatures = outline.methods :=
  let ⟨_, same, linked⟩ := links
  same ▸ Class.methodSignatures_of_link linked

theorem declaredMethod? (name descriptor : String) : cls.declaredMethod? name descriptor =
    (outline.methods.findIdx? (Signature.matches? name descriptor)).map fun index =>
      ⟨id, UInt16.ofNat index⟩ := by
  rw [cls.declaredMethod?_eq, links.methods, links.id_eq]

theorem ofMethod (index : Nat) {signature : Signature}
    (found : outline.methods[index]? = some signature) :
    Signature.ofMethod (cls.methods.getD index default) = signature :=
  Class.ofMethod_of_methodSignatures (links.methods ▸ found)

/-- The fields are placed behind those of the superclass. -/
theorem exists_placeAll : ∃ infos : List FieldInfo,
    infos.map Signature.ofFieldInfo = outline.fields ∧
      (Layout.below superclass).placeAll infos = .ok (cls.fields, cls.slots) :=
  let ⟨file, same, linked⟩ := links
  ⟨file.fields.toList, same ▸ rfl, Class.placeAll_of_link linked⟩

end Links

end Outline

end ClassFile

/-! ## Registries that are given outlines -/

namespace Registry

variable {registry : Registry} {names : List String} {classes : List Class}

/-- Whether a registry has just these classes, under these names. -/
structure Holds (registry : Registry) (names : List String) (classes : List Class) : Prop where
  length : classes.length = names.length
  classes : registry.classes.toList = classes
  names : ∀ name, registry.find? name = (names.findIdx? (· == name)).map ClassId.mk

theorem holds_ofPath (path : ClassPath) : (ofPath path).Holds [] [] :=
  ⟨rfl, rfl, find?_empty⟩

namespace Holds

variable (holds : registry.Holds names classes)

include holds

theorem size : registry.size = names.length := by
  rw [ClassTable.size, ← Array.length_toList, holds.classes, holds.length]

theorem has_iff {id : ClassId} : registry.Has id ↔ id.index < names.length := by
  rw [Has, holds.size]

theorem get (index : Nat) : registry.get ⟨index⟩ = classes.getD index default := by
  rw [ClassTable.get, ← holds.classes, Array.getD_eq_getD_getElem?, List.getD_eq_getElem?_getD,
    Array.getElem?_toList]

/-- A class is known by its name as what its flags tell. -/
theorem knows (index : Nat) (name : String) (found : names.findIdx? (· == name) = some index)
    {flags : UInt16} (same : (classes.getD index default).flags = flags) :
    registry.Knows (Access.has flags Access.isInterface) name ⟨index⟩ := by
  refine ⟨by rw [holds.names, found]; rfl, ?_⟩
  rw [Class.isInterface, holds.get, same]

/-- A request may add a class under a further name. -/
theorem adds {request : Request} {cls : Class} (adds : registry.Adds request cls)
    (fresh : cls.name ∉ names) :
    (registry.answer request).2.Holds (names ++ [cls.name]) (classes ++ [cls]) where
  length := by simp [holds.length]
  classes := by
    rw [adds.table, ← holds.classes]
    exact Array.toList_push
  names name := by
    rw [adds.table, find?_register, holds.names, List.findIdx?_append]
    split
    next same =>
        subst same
        rw [List.findIdx?_eq_none_iff.mpr fun other member => beq_false_of_ne ?_]
        · simp [ClassTable.nextId, holds.size]
        · rintro rfl
          exact fresh member
    next apart => simp [apart]

end Holds

/-- A file with an outline is linked past the class path once its ancestors are known. -/
theorem Holds.define (holds : registry.Holds names classes) (outline : ClassFile.Outline)
    (code : List UInt8) (superclass : Option ClassId) (interfaces : List ClassId)
    (shown : (ClassFile.parse (outline.bytes code)).toOption.map ClassFile.outline = some outline)
    (described : outline.isDescribed = true) (fresh : outline.name ∉ names)
    (above : outline.Above registry.toClassTable superclass interfaces) :
    ∃ cls, outline.Links ⟨names.length⟩ (superclass.map registry.get) interfaces cls ∧
      (registry.answer (.define (outline.bytes code))).2.Holds (names ++ [outline.name])
        (classes ++ [cls]) := by
  obtain ⟨file, parsed, same⟩ := ClassFile.exists_outline shown
  obtain ⟨cls, linked⟩ := ClassFile.Outline.exists_links same described registry.nextId
    (superclass.map registry.get) interfaces
  have unnamed : registry.find? file.name = none := by
    rw [holds.names, List.findIdx?_eq_none_iff.mpr fun other member => beq_false_of_ne ?_]
    · rfl
    · rintro rfl
      subst same
      exact fresh member
  have next : registry.nextId = ⟨names.length⟩ := congrArg ClassId.mk holds.size
  have named : cls.name = outline.name :=
    (Linking.links_of_link linked).name.trans (congrArg ClassFile.Outline.name same)
  have added := holds.adds (adds_define parsed unnamed (above.of_outline same) linked)
    (named ▸ fresh)
  rw [named] at added
  exact ⟨cls, ⟨file, same, next ▸ linked⟩, added⟩

/-- A registry without a class path after it was given some files. -/
def ofFiles (files : List (Array UInt8)) : Registry :=
  files.foldl (fun registry bytes => (registry.answer (.define bytes)).2) (ofPath {})

theorem serves_ofFiles (files : List (Array UInt8)) :
    (ofFiles files).Serves (fun _ => True) {} := by
  rw [ofFiles, ← List.reverse_reverse files, List.foldl_reverse]
  induction files.reverse with
  | nil => exact .refl
  | cons bytes earlier ih => exact ih.tail ⟨.define bytes, fun _ _ => trivial, rfl⟩

end Registry

end Jvm
