import Jvm.Proofs.Heap.Retention
import Jvm.Proofs.Text.Encoding
import Jvm.Slots.Fields

/-!
# Canonical strings

The table of canonical strings maps each text to a string of that text, whichever of its two
producers entered it, and collections leave it so. What two strings with the same canonical one
have in common is their text, in which unpaired surrogates are replaced, and not their units.
-/

namespace Jvm

open Machine

/-! ## The table of canonical strings -/

namespace Machine

/-- Whether strings are laid out as the machine knows them: their bytes and their coder are in
fields of their own. -/
structure LaysStrings (machine : Machine) : Prop where
  linked : machine.registry.Has machine.known.string
  apart : machine.known.stringValue ≠ machine.known.stringCoder
  value : machine.known.stringValue < (machine.cls machine.known.string).instanceSlots.toNat
  coder : machine.known.stringCoder < (machine.cls machine.known.string).instanceSlots.toNat

/-- Whether the table of canonical strings maps texts to strings of these texts, in a heap
that has a handle for every object. Strings are laid out as the machine knows them: their
bytes are in a field that is traced, and the coder is in another one. -/
structure Interns (machine : Machine) : Prop where
  canonical : ∀ {text ref}, machine.interned[text]? = some ref →
    machine.stringText? ref = some text
  traced : ∃ cls slot, machine.registry.class? machine.known.string = some cls ∧
    slot ∈ cls.refSlots ∧ slot.toNat = machine.known.stringValue
  lays : machine.LaysStrings
  spacious : machine.Spacious

variable {before after machine : Machine} {ref : Ref} {units : List UInt16} {text : String}

/-- What a string consists of. -/
theorem stringUnits?_eq_some_iff : machine.stringUnits? ref = some units ↔
    ∃ object fields value bytes, machine.heap.get? ref = some object ∧
      object.cls = machine.known.string ∧ object.body = .instance fields ∧
      fields.getRef machine.known.stringValue = some value ∧
      machine.heap.array? value = some (.bytes bytes) ∧
      units = Text.expand bytes.toList (fields.getInt machine.known.stringCoder).toInt8 := by
  constructor
  · intro found
    simp only [stringUnits?, Option.bind_eq_bind, Option.bind_eq_some_iff] at found
    obtain ⟨object, live, found⟩ := found
    split at found
    · cases found
    next same =>
      simp only [Option.bind_eq_some_iff] at found
      obtain ⟨fields, body, value, held, data, array, found⟩ := found
      have instanced : object.body = .instance fields := by
        rw [Object.fields?] at body
        split at body <;> cases body
        assumption
      cases data with
      | bytes bytes =>
          cases found
          exact ⟨object, fields, value, bytes, live, not_not.mp same, instanced, held, array, rfl⟩
      | _ => cases found
  · rintro ⟨object, fields, value, bytes, live, same, body, held, array, rfl⟩
    have instanced : object.fields? = some fields := by rw [Object.fields?, body]
    simp only [stringUnits?, live, Option.bind_eq_bind, Option.bind_some, same, ne_eq, not_true,
      if_false, instanced, held, array]

theorem LaysStrings.of_preserves (lays : before.LaysStrings) (preserves : before.Preserves after) :
    after.LaysStrings := by
  have known : after.known = before.known := by rw [preserves.aside]
  have same : after.cls before.known.string = before.cls before.known.string :=
    preserves.classes.classes _ lays.linked
  refine ⟨?_, ?_, ?_, ?_⟩ <;> rw [known]
  · exact preserves.classes.has lays.linked
  · exact lays.apart
  · exact same ▸ lays.value
  · exact same ▸ lays.coder

/-- The bytes of a string are reachable with it, so they are kept with it. -/
theorem Interns.stringText?_of_preserves (interns : before.Interns)
    (preserves : before.Preserves after) (reaches : before.Reachable ref)
    (string : before.stringText? ref = some text) : after.stringText? ref = some text := by
  obtain ⟨units, found, rfl⟩ := Option.map_eq_some_iff.mp string
  refine Option.map_eq_some_iff.mpr ⟨units, ?_, rfl⟩
  obtain ⟨object, fields, value, bytes, live, same, body, held, array, rfl⟩ :=
    stringUnits?_eq_some_iff.mp found
  obtain ⟨cls, slot, linked, traced, place⟩ := interns.traced
  obtain ⟨data, there, elements⟩ := Option.bind_eq_some_iff.mp array
  have holds : object.Holds before.registry.toClassTable value :=
    .field body (same ▸ linked) traced (place ▸ held)
  have kept := preserves.objects (.edge reaches live holds) there
  have known : after.known = before.known := by rw [preserves.aside]
  rw [stringUnits?_eq_some_iff, known]
  exact ⟨object, fields, value, bytes, preserves.objects reaches live, same, body, held,
    Option.bind_eq_some_iff.mpr ⟨data, kept, elements⟩, rfl⟩

/-- So the table is right whatever else is allocated, linked and collected. -/
theorem Interns.of_preserves (interns : before.Interns) (preserves : before.Preserves after) :
    after.Interns := by
  have known : after.known = before.known := by rw [preserves.aside]
  have interned : after.interned = before.interned := by rw [preserves.aside]
  refine ⟨fun {text ref} found => ?_, ?_, interns.lays.of_preserves preserves,
    preserves.spacious interns.spacious⟩
  · rw [interned] at found
    exact interns.stringText?_of_preserves preserves (.root (.interned found))
      (interns.canonical found)
  · obtain ⟨cls, slot, linked, traced⟩ := interns.traced
    rw [known]
    exact ⟨cls, slot, preserves.classes.class? linked, traced⟩

/-- A machine without objects, in which a string has two slots. -/
example : ∃ machine : Machine, machine.Interns :=
  let string : Class := { (default : Class) with instanceSlots := 2, refSlots := [0] }
  ⟨{ (default : Machine) with
      registry := { (default : Registry) with classes := #[string] }
      known := { (default : Machine).known with string := ⟨0⟩, stringValue := 0, stringCoder := 1 }
      heap := { limit := 1024, threshold := 1024 } },
    { canonical := fun found => by
        change (∅ : Std.HashMap String Ref)[_]? = _ at found
        simp at found
      traced := ⟨string, 0, rfl, List.mem_cons_self, rfl⟩
      lays := ⟨Nat.zero_lt_one, by decide, by decide, by decide⟩
      spacious := ⟨Heap.balanced_of_empty rfl rfl rfl rfl, by decide⟩ }⟩

end Machine

/-! ## Strings -/

theorem Object.array?_modifyFields (object : Object) (change : Fields → Fields) :
    (object.modifyFields change).array? = object.array? := by
  obtain ⟨_, _, body, _, _⟩ := object
  cases body <;> rfl

/-- Writing fields changes the elements of no array. -/
theorem Heap.array?_modifyFields (heap : Heap) (ref other : Ref) (change : Fields → Fields) :
    (heap.modifyFields ref change).array? other = heap.array? other := by
  rw [array?, modifyFields, get?_modify, array?]
  split
  · cases heap.get? other with
    | none => rfl
    | some object => exact object.array?_modifyFields change
  · rfl

namespace Machine

variable {machine : Machine} {ref : Ref} {text : String}

/-- A string is what it was if an object is made canonical. -/
theorem stringUnits?_intern (machine : Machine) (text : String) (canonical ref : Ref) :
    (machine.intern text canonical).stringUnits? ref = machine.stringUnits? ref := by
  have array (value : Ref) :
      (machine.heap.setSticky canonical).array? value = machine.heap.array? value := by
    rw [Heap.array?, Heap.setSticky, Heap.get?_modify, Heap.array?]
    split
    · cases machine.heap.get? value <;> rfl
    · rfl
  rw [Heap.setSticky] at array
  simp only [stringUnits?, intern, Heap.setSticky, array, Heap.get?_modify]
  split
  · cases machine.heap.get? ref <;> rfl
  · rfl

theorem stringText?_intern (machine : Machine) (text : String) (canonical ref : Ref) :
    (machine.intern text canonical).stringText? ref = machine.stringText? ref := by
  rw [stringText?, stringUnits?_intern, stringText?]

/-- Writes the fields of a string. -/
def writeString (machine : Machine) (ref value : Ref) (coder : Int8) : Machine :=
  machine.modifyHeap fun heap => heap.modifyFields ref fun fields =>
    (fields.setRef machine.known.stringValue (some value)).setInt machine.known.stringCoder
      coder.toInt32

variable {value : Ref} {bytes : List Int8} {coder : Int8} {hash : Int32}

/-- The string consists of the bytes then. -/
theorem stringUnits?_writeString (lays : machine.LaysStrings) {fields : Fields}
    (enough : fields.size = (machine.cls machine.known.string).instanceSlots.toNat)
    (live : machine.heap.get? ref = some
      { cls := machine.known.string, hash, body := .instance fields })
    (array : machine.heap.array? value = some (.bytes bytes.toArray)) :
    (machine.writeString ref value coder).stringUnits? ref = some (Text.expand bytes coder) := by
  have written := (machine.heap.get?_modify ref ref fun object => object.modifyFields fun fields =>
    (fields.setRef machine.known.stringValue (some value)).setInt machine.known.stringCoder
      coder.toInt32).trans ((if_pos rfl).trans (congrArg (Option.map _) live))
  refine stringUnits?_eq_some_iff.mpr
    ⟨_, _, value, bytes.toArray, written, rfl, rfl, ?_, ?_, ?_⟩
  · change Ref.ofSlot ((Fields.set _ _ _).get machine.known.stringValue) = _
    rw [Fields.get_set_of_ne lays.apart.symm, Fields.setRef, Fields.get_set, Ref.ofSlot_toSlot]
    rw [enough]
    exact lays.value
  · exact (machine.heap.array?_modifyFields ref value _).trans array
  · change _ = Text.expand _ ((Fields.set _ _ _).get machine.known.stringCoder).toInt32.toInt8
    rw [Fields.get_set, Int32.toInt32_toUInt32, Int8.toInt8_toInt32, List.toList_toArray]
    rw [Fields.setRef, Fields.size_set, enough]
    exact lays.coder

namespace Builds

variable {before after : Machine} (built : before.Builds bytes coder ref after)

include built

/-- What was written is read back. -/
theorem stringUnits?_eq (lays : before.LaysStrings) :
    after.stringUnits? ref = some (Text.expand bytes coder) := by
  obtain ⟨between, value, hash, registry, known, blank, array, rfl⟩ := built.written
  have laid : between.LaysStrings :=
    ⟨by rw [registry, known]; exact lays.linked, known ▸ lays.apart,
      by rw [cls, registry, known]; exact lays.value,
      by rw [cls, registry, known]; exact lays.coder⟩
  rw [← known] at blank ⊢
  refine stringUnits?_writeString laid ?_ blank array
  rw [Fields.size_ofSize, cls, cls, registry]

end Builds

end Machine

/-! ## Canonical strings -/

namespace Guest

variable {machine : Machine}

/-- A new string is a string of its text, and what was canonical is still. -/
theorem ends_newString (interns : machine.Interns) (text : String) :
    Ends (newString text) machine
      (fun string after => after.Interns ∧ after.interned = machine.interned ∧
        after.stringText? string = some text)
      machine.FailsBuilding := by
  refine (ends_newCompactString_of_spacious interns.spacious (Text.compact text).1
    (Text.compact text).2).mono ?_ fun _ _ fails => fails
  intro string after built
  refine ⟨interns.of_preserves built.preserves, by rw [built.preserves.aside],
    Option.map_eq_some_iff.mpr ⟨_, built.stringUnits?_eq interns.lays, ?_⟩⟩
  rw [Text.expand_compact, Text.ofUnits_units]

/-- What is answered for a text is a string of it that is canonical from then on, and no string
that was canonical ceases to be. -/
structure Canonical (text : String) (before : Machine) (ref : Ref) (after : Machine) : Prop where
  interns : after.Interns
  entered : after.interned[text]? = some ref
  kept : ∀ {other : String} {string : Ref}, before.interned[other]? = some string →
    after.interned[other]? = some string

theorem canonical_intern {before : Machine} {text : String} {ref : Ref} (interns : machine.Interns)
    (same : machine.interned = before.interned) (fresh : before.interned[text]? = none)
    (string : machine.stringText? ref = some text) :
    Canonical text before ref (machine.intern text ref) where
  interns := by
    refine { interns with
      canonical := fun {other string'} found => ?_
      lays := { interns.lays with }
      spacious := ⟨?_, interns.spacious.small⟩ }
    · rw [Machine.stringText?_intern]
      change (machine.interned.insert text ref)[other]? = _ at found
      rw [Std.HashMap.getElem?_insert] at found
      split at found
      next equal =>
        cases found
        rwa [← eq_of_beq equal]
      next => exact interns.canonical found
    · have rewrites : machine.heap.Rewrites (machine.intern text ref).heap := .setSticky _ ref
      exact (Heap.Turn.keeps rewrites.toSameShapes rewrites.toSameCounts).balanced
        interns.spacious.balanced
  entered := Std.HashMap.getElem?_insert_self
  kept {other string'} found := by
    change (machine.interned.insert text ref)[other]? = _
    have different : text ≠ other := fun equal => by
      rw [← equal, fresh] at found
      cases found
    rw [Std.HashMap.getElem?_insert, same, if_neg (by simpa using different)]
    exact found

/-- A literal is a string of its text, whatever was entered before. -/
theorem ends_internString (interns : machine.Interns) (text : String) :
    Ends (internString text) machine (Canonical text machine) machine.FailsBuilding := by
  rw [internString, ends_bind, ends_get]
  split
  next ref found =>
    rw [ends_pure]
    exact ⟨interns, found, id⟩
  next fresh =>
    rw [ends_bind]
    refine (ends_newString interns text).mono ?_ fun _ _ fails => fails
    rintro ref after ⟨interns, same, string⟩
    rw [ends_bind, ends_modify, ends_pure]
    exact canonical_intern interns same fresh string

/-- The canonical string of a string is a string of the same text. -/
theorem ends_internObject? (interns : machine.Interns) {string : Ref} {text : String}
    (holds : machine.stringText? string = some text) :
    Ends (internObject? string) machine
      (fun answer after => ∃ ref, answer = some ref ∧ Canonical text machine ref after)
      fun _ _ => False := by
  rw [internObject?, ends_bind, ends_get]
  simp only [holds]
  split
  next ref found =>
    rw [ends_pure]
    exact ⟨ref, rfl, interns, found, id⟩
  next fresh =>
    rw [ends_bind, ends_modify, ends_pure]
    exact ⟨string, rfl, canonical_intern interns rfl fresh holds⟩

/-- The canonical string of a text is asked for, with a literal or with a string of that text. -/
inductive Asks (text : String) (ref : Ref) (before after : Machine) : Prop
  | literal (ran : internString text before = .ok ref after)
  | receiver {string : Ref} (holds : before.stringText? string = some text)
      (ran : internObject? string before = .ok (some ref) after)

/-- What may happen between two such questions: others are asked, and what else there is in the
heap is built and collected. -/
inductive Passes (before : Machine) : Machine → Prop
  | asks {text : String} {ref : Ref} {after : Machine} (asks : Asks text ref before after) :
      Passes before after
  | preserves {after : Machine} (preserves : before.Preserves after) : Passes before after

variable {before after origin later : Machine} {text text' : String} {ref ref' : Ref}

theorem Asks.canonical (asks : Asks text ref before after) (interns : before.Interns) :
    Canonical text before ref after := by
  cases asks with
  | literal ran => exact ends_of_ok ran (ends_internString interns text)
  | receiver holds ran =>
      obtain ⟨_, same, canonical⟩ := ends_of_ok ran (ends_internObject? interns holds)
      cases same
      exact canonical

theorem Passes.interns (passes : Passes before after) (interns : before.Interns) :
    after.Interns ∧ ∀ {text : String} {ref : Ref}, before.interned[text]? = some ref →
      after.interned[text]? = some ref := by
  cases passes with
  | asks asks =>
      have canonical := asks.canonical interns
      exact ⟨canonical.interns, canonical.kept⟩
  | preserves preserves =>
      exact ⟨interns.of_preserves preserves, fun found => by rwa [preserves.aside]⟩

/-- However often it is collected in between, a text has one canonical string. -/
theorem interns_of_passes (run : Relation.ReflTransGen Passes before after)
    (interns : before.Interns) :
    after.Interns ∧ ∀ {text : String} {ref : Ref}, before.interned[text]? = some ref →
      after.interned[text]? = some ref := by
  induction run with
  | refl => exact ⟨interns, id⟩
  | tail _ passes ih =>
      obtain ⟨interns, kept⟩ := passes.interns ih.1
      exact ⟨interns, fun found => kept (ih.2 found)⟩

/-- Two questions are answered with one string just if they are for one text, and what is
answered is a string of the text asked for. -/
theorem canonical_eq_iff (interns : origin.Interns) (first : Asks text ref origin before)
    (run : Relation.ReflTransGen Passes before later) (second : Asks text' ref' later after) :
    after.stringText? ref = some text ∧ after.stringText? ref' = some text' ∧
      (ref = ref' ↔ text = text') := by
  have early := first.canonical interns
  obtain ⟨interns, kept⟩ := interns_of_passes run early.interns
  have late := second.canonical interns
  have found := late.kept (kept early.entered)
  have left := late.interns.canonical found
  have right := late.interns.canonical late.entered
  refine ⟨left, right, fun same => ?_, fun same => ?_⟩
  · rw [← same, left] at right
    exact Option.some.inj right
  · have entered := late.entered
    rw [← same, found] at entered
    exact Option.some.inj entered

end Guest

end Jvm
