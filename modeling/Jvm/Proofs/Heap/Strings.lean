import Jvm.Native.Text
import Jvm.Proofs.Changing.Tracing
import Jvm.Proofs.Heap.Interning
import Jvm.Proofs.Registry.Plain

/-!
# Strings and their units

A string is stored in one of two forms, which are chosen by a text's characters or by the units
of a sequence. Both choices agree, both forms are read back as what was stored, and the natives
of strings go by the units alone: whatever forms two strings have, they are equal if their units
are, and the units of the string that joins them are theirs, one after the other.
-/

namespace Jvm

namespace Text

/-! ## Forms -/

theorem expand_compactUnits (units : List UInt16) :
    expand (compactUnits units).1 (compactUnits units).2 = units := by
  rw [compactUnits]
  split
  next narrow =>
    have kept : ∀ unit ∈ units, unit.toUInt8.toInt8.toUInt8.toUInt16 = unit := by
      intro unit member
      have small := UInt16.le_iff_toNat_le.mp
        (of_decide_eq_true (List.all_eq_true.mp narrow unit member))
      apply UInt16.toNat_inj.mp
      rw [UInt8.toUInt8_toInt8, UInt8.toNat_toUInt16, UInt16.toNat_toUInt8]
      exact Nat.mod_eq_of_lt (Nat.lt_succ_of_le small)
    rw [expand, if_pos rfl, List.map_map]
    exact (List.map_congr_left kept).trans (List.map_id _)
  next =>
    have different : utf16 ≠ latin1 := by decide
    rw [expand, if_neg different, unitsOfPairs_flatMap]

/-- One byte a unit is chosen if that is enough for every unit. -/
theorem coder_compactUnits_iff (units : List UInt16) :
    (compactUnits units).2 = latin1 ↔ ∀ unit ∈ units, unit ≤ 0xFF := by
  rw [compactUnits]
  split
  next narrow => simpa using narrow
  next wide => simpa [latin1, utf16] using wide

theorem all_unitsOfChar (character : Char) :
    (unitsOfChar character).all (· ≤ 0xFF) = decide (character.toNat ≤ 0xFF) := by
  have range : character.toNat < 0x110000 := by
    obtain low | high := character.valid
    · exact Nat.lt_trans low (by decide)
    · exact high.2
  rw [unitsOfChar]
  split
  next basic => simp [UInt16.le_iff_toNat_le, Nat.mod_eq_of_lt basic]
  next beyond =>
    have high : ¬UInt16.ofNat (0xD800 + (character.toNat - 0x10000) / 0x400) ≤ 0xFF := by
      rw [UInt16.le_iff_toNat_le, toNat_ofNat_unit (by omega)]
      exact Nat.not_le.mpr (by have : (0xFF : UInt16).toNat = 255 := rfl; omega)
    have far : ¬character.toNat ≤ 0xFF := by omega
    rw [List.all_cons, decide_eq_false high, decide_eq_false far, Bool.false_and]

/-- The form that is chosen for a text is the one that is chosen for its units. -/
theorem compact_eq (text : String) : compact text = compactUnits (units text) := by
  have same : (units text).all (· ≤ 0xFF) = text.toList.all (·.toNat ≤ 0xFF) := by
    rw [units, List.all_flatMap]
    exact congrArg (List.all _) (funext all_unitsOfChar)
  rw [compact, compactUnits, same]
  split
  next narrow =>
    refine congrArg (·, latin1) ?_
    rw [units, List.map_flatMap]
    have single : ∀ character ∈ text.toList,
        ((unitsOfChar character).map fun unit => unit.toUInt8.toInt8) =
          [character.val.toUInt8.toInt8] := fun character member => by
      rw [unitsOfChar_of_le (of_decide_eq_true (List.all_eq_true.mp narrow character member))]
      simp
    rw [List.flatMap_congr single, List.map_eq_flatMap]
  next => rfl

theorem expandText_compact (text : String) :
    expandText (compact text).1 (compact text).2 = text := by
  rw [expandText, expand_compact, ofUnits_units]

/-! ## Hashes -/

theorem foldl_hash (start : Int32) (units : List UInt16) :
    units.foldl (fun hash unit => hash * 31 + unit.toUInt32.toInt32) start =
      start * 31 ^ units.length + hashUnits units := by
  induction units generalizing start with
  | nil => simp [hashUnits]
  | cons unit rest ih =>
      have tail := ih (0 * 31 + unit.toUInt32.toInt32)
      rw [hashUnits, List.foldl_cons, List.foldl_cons, ih, tail, List.length_cons]
      grind

/-- The hash of a sequence is shifted by the length of what follows. -/
theorem hashUnits_append (left right : List UInt16) :
    hashUnits (left ++ right) = hashUnits left * 31 ^ right.length + hashUnits right := by
  rw [hashUnits, List.foldl_append]
  exact foldl_hash _ right

end Text

/-! ## The class of strings -/

/-- Whether a class has the fields of strings in the first three slots, and no others. -/
structure Class.HoldsText (cls : Class) : Prop where
  fields : cls.fields.map (fun field => (field.name, field.descriptor, field.slot)) =
    [("value", "[B", 0), ("coder", "B", 1), ("hash", "I", 2)]
  slots : cls.instanceSlots = 3

namespace ClassTable

/-- Whether a table has the root and strings as the library declares them. -/
structure HoldsText (table : ClassTable) : Prop where
  root : ∀ id, table.Has id → (table.get id).name = objectName → (table.get id).instanceSlots = 0
  string : ∀ id, table.Has id → (table.get id).name = "java/lang/String" →
    (table.get id).HoldsText

theorem holdsText_empty : HoldsText {} :=
  ⟨fun _ known => absurd known (Nat.not_lt_zero _), fun _ known => absurd known (Nat.not_lt_zero _)⟩

theorem HoldsText.register {table : ClassTable} (holds : table.HoldsText) {cls : Class}
    (root : cls.name = objectName → cls.instanceSlots = 0)
    (string : cls.name = "java/lang/String" → cls.HoldsText) : (table.register cls).HoldsText where
  root := forall_register (fun _ cls => cls.name = objectName → cls.instanceSlots = 0)
    holds.root root
  string := forall_register (fun _ cls => cls.name = "java/lang/String" → cls.HoldsText)
    holds.string string

end ClassTable

/-- The fields of strings are placed one after the other. -/
theorem Layout.placeAll_stringFields {before after : Layout} {infos : List FieldInfo}
    {fields : List Field} (declared : infos.map Signature.ofFieldInfo = stringFields)
    (first : before.instanceSlots = 0) (placed : before.placeAll infos = .ok (fields, after)) :
    fields.map (fun field => (field.name, field.descriptor, field.slot)) =
      [("value", "[B", 0), ("coder", "B", 1), ("hash", "I", 2)] ∧ after.instanceSlots = 3 := by
  obtain ⟨value, _, rfl, valueIs, declared⟩ := List.map_eq_cons_iff.mp declared
  obtain ⟨coder, _, rfl, coderIs, declared⟩ := List.map_eq_cons_iff.mp declared
  obtain ⟨hash, _, rfl, hashIs, declared⟩ := List.map_eq_cons_iff.mp declared
  cases List.map_eq_nil_iff.mp declared
  simp only [Signature.ofFieldInfo, Signature.mk.injEq] at valueIs coderIs hashIs
  have own (info : FieldInfo) (flags : info.flags = 0x12 ∨ info.flags = 0x2) :
      Access.has info.flags Access.isStatic = false := by
    rcases flags with same | same <;> rw [same] <;> decide
  have bytes : Kind.ofDescriptor value.descriptor = some .reference := by
    rw [valueIs.2.2]
    decide
  have byte : Kind.ofDescriptor coder.descriptor = some .byte := by
    rw [coderIs.2.2]
    decide
  have int : Kind.ofDescriptor hash.descriptor = some .int := by
    rw [hashIs.2.2]
    decide
  have all := placeAll_cons (before.place_of_instance bytes (own value (.inl valueIs.1)))
    (placeAll_cons (place_of_instance _ byte (own coder (.inl coderIs.1)))
      (placeAll_cons (place_of_instance _ int (own hash (.inr hashIs.1)))
        (rfl : placeAll _ [] = .ok ([], _))))
  cases placed.symm.trans all
  simp only [List.map_cons, List.map_nil, valueIs, coderIs, hashIs, first]
  exact ⟨rfl, rfl⟩

namespace Linking

/-- Whatever is registered, the root and strings are as the library declares them. -/
theorem Registers.holdsText {source : ClassFile → Prop} (core : ∀ file, source file → file.IsCore)
    {linking : List String} {before after : ClassTable} (laid : before.Laid)
    (registers : Registers source linking before after) (holds : before.HoldsText) :
    after.HoldsText := by
  cases registers with
  | @file file superclass interfaces cls provided fresh unnamed above linked =>
      obtain ⟨root, string⟩ := core file provided
      simp only [Class.link, Except.bind_eq_ok, pure, Except.pure, Except.ok.injEq] at linked
      obtain ⟨⟨fields, layout⟩, placed, _, -, rfl⟩ := linked
      refine holds.register (fun named => ?_) fun named => ?_
      · obtain ⟨alone, none⟩ := root named
        obtain ⟨rfl, -⟩ := above.root alone
        rw [List.map_eq_nil_iff.mp none] at placed
        cases placed
        rfl
      · obtain ⟨declared, signatures⟩ := string named
        obtain ⟨id, rfl, found, -⟩ := above.nearest _ declared
        obtain ⟨known, called⟩ := laid.names _ _ found
        obtain ⟨fields, slots⟩ :=
          Layout.placeAll_stringFields signatures (holds.root id known called) placed
        exact ⟨fields, slots⟩
  | @array name _ _ _ _ _ array =>
      have other {given : String} (ordinary : ArrayName.isArrayName given = false) :
          name ≠ given := fun same => by
        rw [same, ordinary] at array
        cases array
      exact holds.register (fun named => (other (by decide) named).elim)
        fun named => (other (by decide) named).elim

theorem Extends.holdsText {path : ClassPath} (core : ∀ file, path.Provides file → file.IsCore)
    {table : ClassTable} (extended : Extends path.Provides [] {} table) : table.HoldsText := by
  induction extended with
  | refl => exact ClassTable.holdsText_empty
  | tail begun registers ih =>
      exact registers.holdsText core (Extends.laid begun .empty) ih

end Linking

/-- The fields of strings are found in their class. -/
theorem Class.HoldsText.slotOf_eq {table : ClassTable} {id : ClassId}
    (holds : (table.get id).HoldsText) {slot : Nat} :
    (CoreClasses.slotOf table id "value" "[B" = .ok slot → slot = 0) ∧
      (CoreClasses.slotOf table id "coder" "B" = .ok slot → slot = 1) := by
  obtain ⟨fields, -⟩ := holds
  obtain ⟨value, rest, same, first, fields⟩ := List.map_eq_cons_iff.mp fields
  obtain ⟨coder, rest, rfl, second, -⟩ := List.map_eq_cons_iff.mp fields
  obtain ⟨chain, split⟩ : ∃ rest, table.superChain id = id :: rest := by
    rw [ClassTable.superChain]
    split <;> exact ⟨_, rfl⟩
  simp only [Prod.mk.injEq] at first second
  constructor <;> intro found <;>
    simp [CoreClasses.slotOf, ClassTable.lookupField, split, ClassTable.fieldOf?,
      Class.declaredField?, same, first, second] at found <;> exact found.symm

namespace Machine

variable {before after origin later : Machine}

theorem LaysStrings.of_resembles (lays : before.LaysStrings)
    (classes : before.registry.Resembles after.registry.toClassTable)
    (known : after.known = before.known) : after.LaysStrings := by
  have slots := (classes.classes _ lays.linked).slots
  refine ⟨?_, ?_, ?_, ?_⟩ <;> rw [known]
  · exact classes.has lays.linked
  · exact lays.apart
  · exact lays.value.trans_eq (congrArg UInt16.toNat slots.symm)
  · exact lays.coder.trans_eq (congrArg UInt16.toNat slots.symm)

theorem laysStrings_of_linked {config : Config} {path : ClassPath}
    (core : ∀ file, path.Provides file → file.IsCore) {machine : Machine}
    (started : linked config path = .ok machine) : machine.LaysStrings := by
  obtain ⟨core', table, _, extended, named, found, rfl⟩ := exists_core_of_linked started
  obtain ⟨known, called⟩ := (Linking.Extends.laid extended .empty).names _ _ named.string
  have holds := (Linking.Extends.holdsText core extended).string _ known called
  simp only [CoreClasses.known, Except.bind_eq_ok, pure, Except.pure, Except.ok.injEq] at found
  obtain ⟨value, first, coder, second, _, -, _, -, _, -, _, -, _, -, rfl⟩ := found
  have slots : (table.get core'.string).instanceSlots.toNat = 3 :=
    congrArg UInt16.toNat holds.slots
  cases holds.slotOf_eq.1 first
  cases holds.slotOf_eq.2 second
  exact ⟨known, Nat.zero_ne_one, slots.symm ▸ (by decide : 0 < 3), slots.symm ▸ (by decide : 1 < 3)⟩

/-- A machine starts with strings laid out as it knows them. -/
theorem laysStrings_of_start {config : Config} {classes : ClassPath} {machine : Machine}
    (started : start config classes = .ok machine) : machine.LaysStrings := by
  obtain ⟨library, before, assembled, linked, shapes⟩ := shapes_of_start started
  have core (file : ClassFile) (provided : (library ++ classes).Provides file) : file.IsCore :=
    ClassPath.isCore_of_provides (Except.ok_of_mapError assembled) provided
  have kept := (shapes.changes.caches (proper_of_linked linked)).classes
  exact (laysStrings_of_linked core linked).of_resembles kept shapes.known

/-- Strings stay laid out so, and a small heap stays one, whatever is done with a machine. -/
theorem Undergoes.laysStrings (undergoes : before.Undergoes after) (proper : before.Proper)
    (lays : before.LaysStrings) :
    after.Proper ∧ after.LaysStrings ∧ (before.Spacious → after.Spacious) := by
  have ⟨counts, known⟩ : Counts before after ∧ after.known = before.known := by
    cases undergoes with
    | returns operation known ran => exact ⟨operation.tallies.ok ran, known⟩
    | throws operation known ran => exact ⟨operation.tallies.error ran, known⟩
  exact ⟨counts.changes.proper proper,
    lays.of_resembles (counts.changes.caches proper).classes known,
    fun room => ⟨counts.balanced room.balanced, counts.limit_eq ▸ room.small⟩⟩

theorem laysStrings_of_run (run : Relation.ReflTransGen Undergoes origin later)
    (proper : origin.Proper) (lays : origin.LaysStrings) :
    later.LaysStrings ∧ (origin.Spacious → later.Spacious) := by
  have kept : later.Proper ∧ later.LaysStrings ∧ (origin.Spacious → later.Spacious) := by
    induction run with
    | refl => exact ⟨proper, lays, id⟩
    | tail _ undergoes ih =>
        obtain ⟨proper, lays, spacious⟩ := ih
        have ⟨after, laid, room⟩ := undergoes.laysStrings proper lays
        exact ⟨after, laid, room ∘ spacious⟩
  exact kept.2

end Machine

/-! ## New strings -/

namespace Machine

/-- Whether a string was built that has the given units. -/
structure BuildsUnits (before : Machine) (units : List UInt16) (string : Ref) (after : Machine) :
    Prop where
  preserves : before.Preserves after
  lays : after.LaysStrings
  units : after.stringUnits? string = some units

end Machine

namespace Guest

variable {machine : Machine} (room : machine.Spacious) (lays : machine.LaysStrings)

include room lays

/-- A string of units is a string with these units, and fails only for a full heap. -/
theorem ends_newStringOfUnits_of_lays (units : List UInt16) :
    Ends (newStringOfUnits units) machine (machine.BuildsUnits units) machine.FailsBuilding := by
  refine (ends_newCompactString_of_spacious room (Text.compactUnits units).1
    (Text.compactUnits units).2).mono (fun string after built => ?_) fun _ _ fails => fails
  have found := built.stringUnits?_eq lays
  rw [Text.expand_compactUnits] at found
  exact ⟨built.preserves, lays.of_preserves built.preserves, found⟩

/-- So is a string of a text, with the units of the text. -/
theorem ends_newString_of_lays (text : String) :
    Ends (newString text) machine (machine.BuildsUnits (Text.units text)) machine.FailsBuilding := by
  have same : newString text = newStringOfUnits (Text.units text) := by
    rw [newString, newStringOfUnits, Text.compact_eq]
  rw [same]
  exact ends_newStringOfUnits_of_lays room lays _

end Guest

/-! ## Natives -/

namespace StringNative

open Guest Machine

variable {machine : Machine} {receiver other : Ref} {left right : List UInt16}

theorem unitsOf_eq (found : machine.stringUnits? receiver = some left) :
    unitsOf (some receiver) machine = .ok left machine := by
  change require (machine.stringUnits? receiver) _ machine = _
  rw [found]
  rfl

/-- Two strings are equal if their units are, whatever their forms. -/
theorem sameText_eq (first : machine.stringUnits? receiver = some left)
    (second : machine.stringUnits? other = some right) :
    sameText machine receiver (some other) = decide (left = right) := by
  rw [sameText, first, second]
  by_cases same : other = receiver
  · rw [same, first] at second
    simp [same, Option.some.inj second]
  · have apart : (other == receiver) = false := beq_eq_false_iff_ne.mpr same
    rw [apart, Bool.false_or]
    exact Bool.eq_iff_iff.mpr (by simp)

/-- A string that is joined to another one is followed by its units. -/
theorem ends_join (room : machine.Spacious) (lays : machine.LaysStrings)
    (first : machine.stringUnits? receiver = some left)
    (second : machine.stringUnits? other = some right) :
    Ends (join (some receiver) (some other)) machine
      (fun value after => ∃ string, value = .ref (some string) ∧
        machine.BuildsUnits (left ++ right) string after)
      machine.FailsBuilding := by
  rw [join, ends_bind]
  refine Ends.of_ok (unitsOf_eq first) ?_
  rw [ends_bind]
  refine Ends.of_ok (unitsOf_eq second) ?_
  split
  next empty =>
    rw [List.isEmpty_iff.mp empty, List.append_nil]
    exact ends_pure.mpr ⟨receiver, rfl, .refl room, lays, first⟩
  next =>
    rw [ends_bind]
    refine (ends_newStringOfUnits_of_lays room lays _).mono (fun string after built => ?_)
      fun _ _ fails => fails
    exact ends_pure.mpr ⟨string, rfl, built⟩

/-- A machine of nodes and of strings, which have two slots, the bytes and the coder. -/
def lettered (limit : Nat) : Machine :=
  let string : Class := { (default : Class) with instanceSlots := 2, refSlots := [0] }
  { (default : Machine) with
    registry := { (default : Registry) with classes := #[default, string] }
    known := { (default : Machine).known with string := ⟨1⟩, stringValue := 0, stringCoder := 1 }
    heap := { limit, threshold := limit } }

/-- That machine with a letter of one byte and one of two bytes. -/
def paired (limit : Nat) : Machine :=
  match (newStringOfUnits [0x61] *> newStringOfUnits [0x20AC]) (lettered limit) with
  | .ok _ machine | .error _ machine => machine

theorem laysStrings_lettered (limit : Nat) : (lettered limit).LaysStrings :=
  ⟨Nat.one_lt_two, Nat.zero_ne_one, Nat.zero_lt_two, Nat.one_lt_two⟩

/-- Strings are there in a crowd as they were before it. -/
theorem stringUnits?_of_crowds {base : Machine} {count : Nat} (crowds : base.Crowds count machine)
    {ref : Ref} {units : List UInt16} (found : base.stringUnits? ref = some units) :
    machine.stringUnits? ref = some units := by
  obtain ⟨object, fields, value, bytes, live, same, body, held, array, rfl⟩ :=
    stringUnits?_eq_some_iff.mp found
  obtain ⟨data, there, elements⟩ := Option.bind_eq_some_iff.mp array
  have known : machine.known = base.known := by rw [crowds.aside]
  rw [stringUnits?_eq_some_iff, known]
  exact ⟨object, fields, value, bytes, crowds.kept _ _ live, same, body, held,
    Option.bind_eq_some_iff.mpr ⟨data, crowds.kept _ _ there, elements⟩, rfl⟩

/-- A string that is built of objects at two handles has its fields written at the second. -/
theorem run_newCompactString {middle last : Machine} {value string : Ref} {bytes : List Int8}
    (coder : Int8)
    (first : newArrayOf machine.known.byteArray (.bytes bytes.toArray) machine = .ok value middle)
    (second : newInstance machine.known.string middle = .ok string last)
    (known : last.known = machine.known) :
    newCompactString bytes coder machine = .ok string (last.writeString string value coder) := by
  rw [newCompactString]
  refine (bind_of_ok (run_get machine)).trans ((bind_of_ok first).trans
    ((bind_of_ok second).trans ((bind_of_ok (run_modify _ last)).trans ?_)))
  rw [writeString, known]
  rfl

end StringNative

end Jvm
