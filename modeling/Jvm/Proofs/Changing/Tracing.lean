import Jvm.Proofs.Changing.Caching
import Jvm.Proofs.Registry.Arrays

/-!
# Objects keep the shape of their class

A machine starts out in shape, and whatever is done with it afterwards keeps it so. So at
each moment of each run, an object is an array or an instance as its class is, and has room for
what the class says: the collector finds the references of an instance in slots that it has,
as long as the class and those above it do not have more slots than there are numbers, and
elements are copied between arrays of one kind of element.
-/

namespace Jvm

open Linking

/-! ## The core classes -/

/-- The class that has the name of an array of a primitive kind is that array class. -/
theorem ClassTable.Spelled.form_of_primitive {table : ClassTable} (spelled : table.Spelled)
    {name : String} {kind : Kind} (array : ArrayName.isArrayName name = true)
    (primitive : ArrayName.component name = .ok (.primitive kind)) {id : ClassId}
    (found : table.find? name = some id) :
    table.Has id ∧ (table.get id).form = .elements kind.storage := by
  obtain ⟨known, called⟩ := (spelled.names name id).mp found
  refine ⟨known, ?_⟩
  cases held : (table.get id).array with
  | none =>
      have ordinary := spelled.ordinary id known held
      rw [called, array] at ordinary
      cases ordinary
  | some info =>
      have made := (spelled.arrays id info known held).made
      rw [called] at made
      rw [Class.form, held]
      obtain ⟨dimensions, element, component⟩ := info
      cases made with
      | primitive found =>
          cases primitive.symm.trans found
          rfl
      | component found => cases primitive.symm.trans found

namespace CoreClasses

/-- Whether the core classes that objects are made of have their names in a table. -/
structure NamedIn (table : ClassTable) (core : CoreClasses) : Prop where
  cls : table.find? "java/lang/Class" = some core.cls
  string : table.find? "java/lang/String" = some core.string
  byteArray : table.find? "[B" = some core.byteArray
  thread : table.find? "java/lang/Thread" = some core.thread

theorem extends_load (path : ClassPath) {table : ClassTable} (named : Named table) :
    Moves (Extends path.Provides []) (load path) table fun core after => core.NamedIn after := by
  have loads (name : String) {table : ClassTable} (named : Named table) :
      Moves (Extends path.Provides []) (Linking.load path [] name) table
        fun id after => after.find? name = some id :=
    (loads_load path [] name table named).mono
      (fun _ _ obtained => ⟨obtained.1.extends, obtained.2⟩) fun _ _ failed => failed.1
  refine (loads _ named).bind fun object _ first _ => ?_
  have named := Extends.named first named
  refine (loads _ named).bind fun cls _ second clsFound => ?_
  have named := Extends.named second named
  refine (loads _ named).bind fun string _ third stringFound => ?_
  have named := Extends.named third named
  refine (loads _ named).bind fun byteArray _ fourth byteArrayFound => ?_
  have named := Extends.named fourth named
  refine (loads _ named).bind fun cloneable _ fifth _ => ?_
  have named := Extends.named fifth named
  refine (loads _ named).bind fun throwable _ sixth _ => ?_
  have named := Extends.named sixth named
  refine (loads _ named).bind fun printStream _ seventh _ => ?_
  have named := Extends.named seventh named
  refine (loads _ named).bind fun thread _ eighth threadFound => ?_
  have fromFourth := ((fifth.trans sixth).trans seventh).trans eighth
  have fromThird := fourth.trans fromFourth
  have fromSecond := third.trans fromThird
  exact Moves.pure .refl ⟨Extends.find? fromSecond clsFound, Extends.find? fromThird stringFound,
    Extends.find? fromFourth byteArrayFound, threadFound⟩

/-- The machine knows the classes that have the names of core classes. -/
theorem madeIn_of_known {path : ClassPath} {core : CoreClasses} {table : ClassTable}
    (extended : Extends path.Provides [] {} table) (named : core.NamedIn table)
    (laid : table.Laid) {wellKnown : WellKnown} (found : core.known table = .ok wellKnown) :
    wellKnown.MadeIn table := by
  have spelled : table.Spelled :=
    Extends.spelled (fun _ provided => provided.ordinary) extended .empty
  have bytes : ArrayName.component "[B" = .ok (.primitive .byte) := rfl
  have byteArray := spelled.form_of_primitive rfl bytes named.byteArray
  simp only [known, Except.bind_eq_ok, pure, Except.pure, Except.ok.injEq] at found
  obtain ⟨_, -, _, -, _, -, _, -, _, -, _, -, _, -, rfl⟩ := found
  exact ⟨laid.makes_of_ordinary rfl named.cls, laid.makes_of_ordinary rfl named.string,
    laid.makes_of_ordinary rfl named.thread, byteArray⟩

end CoreClasses

namespace Machine

/-! ## Starting -/

/-- A machine has its core classes from the path that they are linked from. -/
theorem exists_core_of_linked {config : Config} {path : ClassPath} {machine : Machine}
    (started : linked config path = .ok machine) :
    ∃ (core : CoreClasses) (table : ClassTable) (known : WellKnown),
      Linking.Extends path.Provides [] {} table ∧ core.NamedIn table ∧
      core.known table = .ok known ∧ machine =
        { config, registry := { path, toClassTable := table }, known, heap := Heap.ofConfig config
          exec := .idle Execution.mainId config.stackSlots, clock := config.surroundings.clock } := by
  simp only [linked, Except.bind_eq_ok, pure, Except.pure, Except.ok.injEq] at started
  obtain ⟨core, loaded, known, found, rfl⟩ := started
  have loaded := Except.ok_of_mapError loaded
  rw [Registry.link, EStateM.run] at loaded found ⊢
  cases ran : CoreClasses.load path {} with
  | error error after =>
      simp only [Registry.ofPath, ran] at loaded
      cases loaded
  | ok linked after =>
      simp only [Registry.ofPath, ran] at loaded found ⊢
      cases loaded
      obtain ⟨extended, named⟩ :=
        ends_of_ok ran (CoreClasses.extends_load path ClassTable.Laid.empty.named)
      exact ⟨_, after, known, extended, named, found, rfl⟩

theorem shapely_of_linked {config : Config} {path : ClassPath} {machine : Machine}
    (started : linked config path = .ok machine) : machine.Shapely := by
  have proper := proper_of_linked started
  obtain ⟨core, table, known, extended, named, found, rfl⟩ := exists_core_of_linked started
  have laid := Extends.laid extended .empty
  exact ⟨proper, laid, CoreClasses.madeIn_of_known extended named laid found, by rintro _ _ ⟨⟩⟩

theorem shapely_of_start {config : Config} {classes : ClassPath} {machine : Machine}
    (started : start config classes = .ok machine) : machine.Shapely := by
  obtain ⟨_, before, -, linked, shapes⟩ := shapes_of_start started
  exact shapes.shapely (shapely_of_linked linked)

/-! ## Runs -/

/-- What is done with a machine at a time, whether it succeeds or not; the classes that the
machine uses itself stay those. -/
inductive Undergoes (before : Machine) : Machine → Prop
  | returns {ε α : Type} {step : EStateM ε Machine α} {value : α} {after : Machine}
      (operation : Operation step) (known : after.known = before.known)
      (ran : step before = .ok value after) : Undergoes before after
  | throws {ε α : Type} {step : EStateM ε Machine α} {raised : ε} {after : Machine}
      (operation : Operation step) (known : after.known = before.known)
      (ran : step before = .error raised after) : Undergoes before after

variable {origin before after later : Machine}

/-- Objects are in shape after whatever is done with a machine. -/
theorem Undergoes.shapely (undergoes : before.Undergoes after) (shapely : before.Shapely) :
    after.Shapely := by
  cases undergoes with
  | returns operation known ran =>
      rcases operation.paces_or_aside with paces | aside
      · exact (paces.ok ran).shapely shapely
      · obtain ⟨_, _, same, -, registry, heap⟩ := aside before
        cases ran.symm.trans same
        exact shapely.of_same registry heap known
  | throws operation known ran =>
      rcases operation.paces_or_aside with paces | aside
      · exact (paces.error ran).shapely shapely
      · obtain ⟨_, _, same, -⟩ := aside before
        cases ran.symm.trans same

theorem shapely_of_run (run : Relation.ReflTransGen Undergoes origin later)
    (shapely : origin.Shapely) : later.Shapely := by
  induction run with
  | refl => exact shapely
  | tail _ undergoes ih => exact undergoes.shapely ih

end Machine

/-! ## What the shape of an object tells -/

namespace ClassTable.Forms

variable {table : ClassTable} {object : Object} (forms : table.Forms object)

include forms

theorem isArray_iff :
    (∃ data, object.body = .array data) ↔ (table.get object.cls).isArray = true := by
  have form := forms.form
  rw [Class.form] at form
  rw [Class.isArray]
  cases body : object.body <;> cases held : (table.get object.cls).array <;>
    simp [body, held, Body.form] at form ⊢

theorem kind_eq {data : ArrayData} {info : ArrayInfo} (body : object.body = .array data)
    (held : (table.get object.cls).array = some info) : data.kind = info.element.storage := by
  have form := forms.form
  rw [body, Class.form, held] at form
  injection form

theorem size_eq {fields : Fields} (body : object.body = .instance fields) :
    fields.size = (table.get object.cls).instanceSlots.toNat := by
  have form := forms.form
  rw [body, Class.form] at form
  split at form
  · injection form
  · cases form

/-- The references of an instance are read in slots that it has. -/
theorem refSlots_lt (laid : table.Laid) (room : table.chainSlots object.cls < UInt16.size)
    {fields : Fields} (body : object.body = .instance fields) {slot : UInt16}
    (held : slot ∈ (table.get object.cls).refSlots) : slot.toNat < fields.size := by
  rw [forms.size_eq body]
  exact (laid.tight forms.known room).2 slot held

end ClassTable.Forms

/-- Elements are copied between arrays whose classes have one kind of element. -/
theorem ClassTable.Forms.isSome_copyFrom? {table : ClassTable} {target source : Object}
    {data other : ArrayData} {info info' : ArrayInfo} (targetForms : table.Forms target)
    (sourceForms : table.Forms source) (targetBody : target.body = .array data)
    (sourceBody : source.body = .array other) (targetHeld : (table.get target.cls).array = some info)
    (sourceHeld : (table.get source.cls).array = some info') (same : info.element = info'.element)
    (place start count : Nat) : (data.copyFrom? place other start count).isSome = true := by
  refine ArrayData.isSome_copyFrom? ?_ place start count
  rw [targetForms.kind_eq targetBody targetHeld, sourceForms.kind_eq sourceBody sourceHeld, same]

namespace Machine

variable {origin later : Machine}

/-- Objects keep the shape of their class. A machine starts in shape. Take any run from such
a machine, whatever is done with it and whether that succeeds or not. Then each live object is
of a class that is linked. It is an array if and only if its class is an array class, and its
elements are then stored as those of the class are; otherwise it has the slots that its class
has laid out, and its references are read in slots that it has, if the class and those above it
have fewer slots than there are slot numbers. Elements are copied between any two live arrays
whose classes have one kind of element. -/
theorem objects_keep_shape (shapely : origin.Shapely)
    (run : Relation.ReflTransGen Undergoes origin later) :
    (∀ config classes machine, start config classes = .ok machine → machine.Shapely) ∧
    (∀ ref object, later.heap.get? ref = some object →
      later.registry.Has object.cls ∧
      ((∃ data, object.body = .array data) ↔ (later.cls object.cls).isArray = true) ∧
      (∀ data info, object.body = .array data → (later.cls object.cls).array = some info →
        data.kind = info.element.storage) ∧
      ∀ fields, object.body = .instance fields →
        fields.size = (later.cls object.cls).instanceSlots.toNat ∧
          (later.registry.chainSlots object.cls < UInt16.size →
            ∀ slot ∈ (later.cls object.cls).refSlots, slot.toNat < fields.size)) ∧
    ∀ {targetRef sourceRef : Ref} {target source : Object} {data other : ArrayData}
      {info info' : ArrayInfo}, later.heap.get? targetRef = some target →
      later.heap.get? sourceRef = some source → target.body = .array data →
      source.body = .array other → (later.cls target.cls).array = some info →
      (later.cls source.cls).array = some info' → info.element = info'.element →
      ∀ place start count, (data.copyFrom? place other start count).isSome = true := by
  have kept := shapely_of_run run shapely
  refine ⟨fun _ _ _ started => shapely_of_start started, fun ref object live => ?_, ?_⟩
  · have forms := kept.forms live
    exact ⟨forms.known, forms.isArray_iff, fun _ _ body held => forms.kind_eq body held,
      fun _ body => ⟨forms.size_eq body, fun room _ => forms.refSlots_lt kept.laid room body⟩⟩
  · intro _ _ _ _ _ _ _ _ targetLive sourceLive targetBody sourceBody targetHeld sourceHeld same
    exact (kept.forms targetLive).isSome_copyFrom? (kept.forms sourceLive) targetBody sourceBody
      targetHeld sourceHeld same

end Machine

/-! ## More slots than numbers -/

/-- A field of instances. -/
def FieldInfo.ofInstance (descriptor name : String) : FieldInfo := ⟨0, name, descriptor, none⟩

/-- A field of instances is placed behind those before it, wherever that is. -/
theorem Layout.place_of_instance (layout : Layout) {info : FieldInfo} {kind : Kind}
    (found : Kind.ofDescriptor info.descriptor = some kind)
    (own : Access.has info.flags Access.isStatic = false) :
    layout.place info = .ok
      ({ name := info.name, descriptor := info.descriptor, flags := info.flags, kind
         slot := layout.instanceSlots, constantValue := info.constantValue },
        { layout with
          instanceSlots := layout.instanceSlots + UInt16.ofNat kind.slots
          refSlots := noteRef kind layout.instanceSlots layout.refSlots }) := by
  rw [place, found]
  simp only [own]
  rfl

theorem Layout.place_ofInstance (layout : Layout) {descriptor : String} {kind : Kind}
    (found : Kind.ofDescriptor descriptor = some kind) (name : String) :
    ∃ field, layout.place (.ofInstance descriptor name) = .ok (field,
      { layout with
        instanceSlots := layout.instanceSlots + UInt16.ofNat kind.slots
        refSlots := noteRef kind layout.instanceSlots layout.refSlots }) := by
  have own : Access.has 0 Access.isStatic = false := by decide
  exact ⟨_, @Layout.place_of_instance layout (.ofInstance descriptor name) _ found own⟩

theorem Layout.placeAll_cons {layout between after : Layout} {info : FieldInfo}
    {infos : List FieldInfo} {field : Field} {fields : List Field}
    (first : layout.place info = .ok (field, between))
    (rest : between.placeAll infos = .ok (fields, after)) :
    layout.placeAll (info :: infos) = .ok (field :: fields, after) := by
  rw [placeAll, first]
  exact congrArg (· >>= fun rest => pure (field :: rest.1, rest.2)) rest

/-- So are longs, however many there are. -/
theorem Layout.placeAll_longs (layout : Layout) (names : List String) :
    ∃ fields, layout.placeAll (names.map (.ofInstance "J")) = .ok (fields,
      { layout with instanceSlots := layout.instanceSlots + 2 * UInt16.ofNat names.length }) := by
  induction names generalizing layout with
  | nil => exact ⟨[], by simp [placeAll]⟩
  | cons name names ih =>
      have long : Kind.ofDescriptor "J" = some .long := by decide
      obtain ⟨field, placed⟩ := layout.place_ofInstance long name
      obtain ⟨fields, others⟩ := ih { layout with instanceSlots := layout.instanceSlots + 2 }
      have slots : layout.instanceSlots + 2 + 2 * UInt16.ofNat names.length =
          layout.instanceSlots + 2 * UInt16.ofNat (names.length + 1) := by
        rw [UInt16.ofNat_add]
        grind
      rw [slots] at others
      exact ⟨field :: fields, placeAll_cons placed others⟩

/-- A root without fields. -/
def plainRoot : Class where
  id := ⟨0⟩
  name := ClassTable.objectName
  flags := 0
  superclass := none
  interfaces := []
  pool := {}
  fields := []

/-- A class file with one slot more than there are slot numbers. -/
def wideFile : ClassFile where
  majorVersion := 52
  pool := {}
  flags := 0
  name := "demo/Wide"
  superclass := some ClassTable.objectName
  interfaces := []
  fields := (FieldInfo.ofInstance "Ljava/lang/Object;" "item" :: .ofInstance "I" "mark" ::
    ((List.range 32767).map toString).map (.ofInstance "J")).toArray
  methods := #[]
  sourceFile := none

/-- The class that it is linked as. -/
def wideClass (fields : List Field) : Class where
  id := ⟨1⟩
  name := "demo/Wide"
  flags := 0
  superclass := some ⟨0⟩
  interfaces := []
  pool := {}
  fields := fields
  refSlots := [0]

theorem exists_link_wideFile :
    ∃ fields, Class.link ⟨1⟩ wideFile (some plainRoot) [] = .ok (wideClass fields) := by
  have reference : Kind.ofDescriptor "Ljava/lang/Object;" = some .reference := by decide
  have word : Kind.ofDescriptor "I" = some .int := by decide
  obtain ⟨item, first⟩ := Layout.place_ofInstance {} reference "item"
  obtain ⟨mark, second⟩ := Layout.place_ofInstance { instanceSlots := 1, refSlots := [0] } word "mark"
  obtain ⟨longs, third⟩ := Layout.placeAll_longs { instanceSlots := 2, refSlots := [0] }
    ((List.range 32767).map toString)
  rw [List.length_map, List.length_range] at third
  have placed := Layout.placeAll_cons first (Layout.placeAll_cons second third)
  refine ⟨item :: mark :: longs, ?_⟩
  rw [Class.link, wideFile, plainRoot]
  dsimp only [Layout.below]
  rw [placed]
  rfl

namespace Machine

/-- A table with only a root. -/
def plainTable : ClassTable := ({} : ClassTable).register plainRoot

/-- A machine that knows it, and a wide class below it. -/
def wideMachine (fields : List Field) : Machine :=
  { Guest.nodeMachine with registry := { toClassTable := plainTable.register (wideClass fields) } }

/-- A class with as many slots as there are slot numbers is linked, and its instances have no
slots at all, although they should hold a reference. -/
theorem wide_instance_has_no_slots (path : ClassPath) : ∃ fields,
    define path [] wideFile plainTable = .ok ⟨1⟩ (plainTable.register (wideClass fields)) ∧
      ∃ ref made object, Guest.newInstance ⟨1⟩ (wideMachine fields) = .ok ref made ∧
        made.heap.get? ref = some object ∧ object.cls = ⟨1⟩ ∧
        object.body = .instance (Fields.ofSize 0) ∧ (made.cls ⟨1⟩).refSlots = [0] := by
  obtain ⟨fields, linked⟩ := exists_link_wideFile
  have known : plainTable.Knows false ClassTable.objectName ⟨0⟩ :=
    ⟨find?_register_self {} plainRoot, by decide⟩
  have above : wideFile.Above plainTable (some ⟨0⟩) [] := {
    nearest := by
      rintro _ ⟨⟩
      exact ⟨⟨0⟩, rfl, known⟩
    root := nofun
    declared := .nil }
  exact ⟨fields, define_of_above above linked, _, _, _, rfl, rfl, rfl, rfl, rfl⟩

end Machine

end Jvm
