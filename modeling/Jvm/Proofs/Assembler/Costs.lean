import Mathlib.Algebra.GroupWithZero.Nat
import Jvm.Proofs.Assembler.RoundTrip

/-!
# Costs of assembled classes

A class fits the format if its texts are short and it does not take too many constants.
What a part of a class costs in slots of the constant pool is bounded by the part alone,
whatever constants there are already; so a class of a moderate size fits.
-/

namespace Jvm.Assembler

/-- Whether the length of a text can be written. -/
abbrev IsShort (text : String) : Prop := (Text.utf8 text).length < 65536

/-! ## Numbering within a bound -/

namespace PoolBuilder

/-- Whether the texts of a pool are short and its constants take no more than some slots. -/
structure Within (pool : PoolBuilder) (bound : Nat) : Prop where
  texts : ∀ item ∈ pool.items.toList, item.FitsText
  slots : pool.slots ≤ bound

variable {pool : PoolBuilder} {bound more : Nat}

theorem Within.mono (within : pool.Within bound) (less : bound ≤ more) : pool.Within more :=
  ⟨within.texts, Nat.le_trans within.slots less⟩

/-- A constant takes two slots at most. -/
theorem Within.add (within : pool.Within bound) {item : Constant} (fits : item.FitsText) :
    (pool.add item).2.Within (bound + 2) := by
  cases known : pool.numbers[item]? with
  | some number =>
      rw [add_of_known known]
      exact within.mono (Nat.le_add_right _ _)
  | none =>
      rw [add_of_new known]
      have width : item.width ≤ 2 := by
        unfold Constant.width
        split <;> decide
      constructor
      · intro other member
        rw [Array.toList_push, List.mem_append, List.mem_singleton] at member
        rcases member with old | rfl
        · exact within.texts other old
        · exact fits
      · rw [PoolBuilder.slots, Array.toList_push, Constant.widths_concat, ← Nat.add_assoc]
        exact Nat.add_le_add within.slots width

end PoolBuilder

/-- Whether a computation adds short texts only, and constants for no more than some slots. -/
def Numbering.Takes {α : Type} (cost : Nat) (step : Numbering α) : Prop :=
  ∀ pool bound, pool.Within bound → PoolBuilder.Within (step.run pool).2 (bound + cost)

namespace Numbering

variable {α β : Type} {cost more : Nat}

protected theorem Takes.pure (value : α) : Takes 0 (pure value : Numbering α) :=
  fun _ _ within => within

protected theorem Takes.bind {step : Numbering β} {next : β → Numbering α}
    (first : Takes cost step) (rest : ∀ value, Takes more (next value)) :
    Takes (cost + more) (step >>= next) := by
  intro pool bound within
  rw [← Nat.add_assoc]
  exact rest _ _ _ (first pool bound within)

theorem Takes.mono {step : Numbering α} (takes : Takes cost step) (less : cost ≤ more) :
    Takes more step :=
  fun pool bound within => (takes pool bound within).mono (Nat.add_le_add_left less bound)

theorem Takes.map {step : Numbering β} (takes : Takes cost step) (change : β → α) :
    Takes cost (change <$> step) := takes

theorem Takes.ite {condition : Prop} [Decidable condition] {left right : Numbering α}
    (yes : Takes cost left) (no : Takes cost right) :
    Takes cost (if condition then left else right) := by
  split
  · exact yes
  · exact no

theorem takes_item (constant : Constant) (fits : constant.FitsText) : Takes 2 (item constant) :=
  fun _ _ within => within.add fits

variable {name descriptor text : String}

theorem takes_utf8 (short : IsShort text) : Takes 2 (utf8 text) :=
  takes_item (.utf8 text) short

theorem takes_cls (short : IsShort name) : Takes 4 (cls name) :=
  (takes_utf8 short).bind fun index => takes_item (.cls index) True.intro

theorem takes_string (short : IsShort text) : Takes 4 (string text) :=
  (takes_utf8 short).bind fun index => takes_item (.string index) True.intro

theorem takes_nameAndType (short : IsShort name) (short' : IsShort descriptor) :
    Takes 6 (nameAndType name descriptor) :=
  (takes_utf8 short).bind fun first => (takes_utf8 short').bind fun second =>
    takes_item (.nameAndType first second) True.intro

theorem takes_member {make : UInt16 → UInt16 → Constant}
    (fits : ∀ first second, (make first second).FitsText) {owner : String}
    (short : IsShort owner) (short' : IsShort name) (short'' : IsShort descriptor) :
    Takes 12 (member make owner name descriptor) :=
  (takes_cls short).bind fun _ => (takes_nameAndType short' short'').bind fun _ =>
    takes_item _ (fits _ _)

end Numbering

/-! ## Bodies -/

/-- The texts of a line that become constants. -/
def Line.texts : Line → List String
  | .string text | .classConstant text | .newObject text | .newRefArray text
  | .newMultiArray text _ | .checkCast text | .instanceOf text => [text]
  | .getStatic owner name descriptor | .putStatic owner name descriptor
  | .getField owner name descriptor | .putField owner name descriptor
  | .invokeVirtual owner name descriptor | .invokeSpecial owner name descriptor
  | .invokeStatic owner name descriptor | .invokeInterface owner name descriptor =>
    [owner, name, descriptor]
  | .handler _ _ _ catchType => catchType.toList
  | _ => []

open Assembler.Numbering (Takes)

variable {builder : CodeBuilder}

theorem takes_loaded (constant : Constant) (fits : constant.FitsText)
    (next : UInt16 → CodeBuilder) :
    Takes 12 (do pure (next (← Numbering.item constant)) : Numbering CodeBuilder) :=
  ((Numbering.takes_item constant fits).bind fun _ => .pure _).mono (by decide)

/-- A line takes no more than an access to a member. -/
theorem takes_line {added : Line} (short : ∀ text ∈ added.texts, IsShort text) :
    Takes 12 (line builder added) := by
  have done {after : CodeBuilder} : Takes 12 (pure after : Numbering CodeBuilder) :=
    (Takes.pure after).mono (Nat.zero_le _)
  have classes {name : String} (here : IsShort name) (opcode : Opcode) :
      Takes 12 (classOperand builder opcode name) :=
    ((Numbering.takes_cls here).bind fun _ => .pure _).mono (by decide)
  have members {make : UInt16 → UInt16 → Constant}
      (fits : ∀ first second, (make first second).FitsText) {owner name descriptor : String}
      (all : ∀ text ∈ [owner, name, descriptor], IsShort text) (opcode : Opcode) :
      Takes 12 (memberOperand builder opcode make owner name descriptor) :=
    (Numbering.takes_member fits (all _ (.head _)) (all _ (.tail _ (.head _)))
      (all _ (.tail _ (.tail _ (.head _))))).bind fun _ => .pure _
  have field (first second : UInt16) : (Constant.fieldRef first second).FitsText := trivial
  have method (first second : UInt16) : (Constant.methodRef first second).FitsText := trivial
  have interface (first second : UInt16) :
      (Constant.interfaceMethodRef first second).FitsText := trivial
  have first {name : String} (only : ∀ text ∈ [name], IsShort text) : IsShort name :=
    only name (.head _)
  cases added with
  | int value => exact .ite done (.ite done (.ite done (takes_loaded (.integer value) trivial _)))
  | long value => exact .ite done (.ite done (takes_loaded (.long value) trivial _))
  | float bits => exact .ite done (.ite done (.ite done (takes_loaded (.float bits) trivial _)))
  | double bits => exact .ite done (.ite done (takes_loaded (.double bits) trivial _))
  | string text =>
      exact ((Numbering.takes_string (first short)).bind fun _ => .pure _).mono (by decide)
  | classConstant name =>
      exact ((Numbering.takes_cls (first short)).bind fun _ => .pure _).mono (by decide)
  | newObject name | newRefArray name | checkCast name | instanceOf name =>
      exact classes (first short) _
  | newMultiArray name dimensions => exact (classes (first short) _).bind fun _ => .pure _
  | getStatic owner name descriptor | putStatic owner name descriptor
  | getField owner name descriptor | putField owner name descriptor => exact members field short _
  | invokeVirtual owner name descriptor | invokeSpecial owner name descriptor
  | invokeStatic owner name descriptor => exact members method short _
  | invokeInterface owner name descriptor =>
      exact (members interface short _).bind fun _ => .pure _
  | handler start finish target catchType =>
      cases catchType with
      | none => exact done
      | some name =>
          exact ((Numbering.takes_cls (first short)).bind fun _ => .pure _).mono (by decide)
  | _ => exact done

namespace Program

variable (program : Program) {bound : Nat}

theorem within_after (within : program.pool.Within bound) {lines : List Line}
    (short : ∀ line ∈ lines, ∀ text ∈ line.texts, IsShort text) :
    (program.after lines).2.Within (bound + 12 * lines.length) := by
  induction lines using List.reverseRecOn with
  | nil => exact within
  | append_singleton lines last ih =>
      rw [after_concat, List.length_append]
      have before := ih fun line member => short line (List.mem_append_left _ member)
      exact takes_line (short last (List.mem_append_right _ (.head _))) _ _ before

theorem takes_attributeNames (builder : CodeBuilder) : Takes 4 builder.attributeNames := by
  have code : IsShort "Code" := by decide +kernel
  have lines : IsShort "LineNumberTable" := by decide +kernel
  show Takes (2 + 2) builder.attributeNames
  refine (Numbering.takes_utf8 code).bind fun _ => ?_
  dsimp only
  split
  · exact (Takes.pure _).mono (Nat.zero_le _)
  · exact Takes.bind ((Numbering.takes_utf8 lines).map some) fun _ => .pure _

/-- A body takes what its lines take and the names of its attributes. -/
theorem within_codeAttribute (within : program.pool.Within bound)
    (short : ∀ line ∈ program.body, ∀ text ∈ line.texts, IsShort text) :
    ((codeAttribute program.slots program.body).run.run program.pool).2.Within
      (bound + (12 * program.body.length + 4)) := by
  have lines := program.within_after within short
  have ends := lines.mono (Nat.le_add_right _ 4)
  rw [← Nat.add_assoc, run_codeAttribute]
  cases patched : program.assembled.patched with
  | error error =>
      rw [CodeBuilder.finish_of_unpatched _ _ patched]
      exact ends
  | ok code =>
      by_cases good : CodeBuilder.GoodLength code.size
      · have names := takes_attributeNames program.assembled _ _ lines
        rw [CodeBuilder.finish_of_patched _ _ patched good]
        cases program.assembled.handlers.toList.mapM program.assembled.handlerBytes <;>
          exact names
      · rw [CodeBuilder.finish_of_badLength _ _ patched good]
        exact ends

end Program

/-! ## Parts -/

namespace Part

/-- The texts of a part that become constants. -/
def texts : Part → List String
  | .flags _ => []
  | .interface name | .source name => [name]
  | .field _ name descriptor (some (.string text)) => [name, descriptor, text]
  | .field _ name descriptor _ | .bodiless _ name descriptor => [name, descriptor]
  | .method _ name descriptor body => name :: descriptor :: body.flatMap Line.texts

/-- Slots of the constant pool that a part takes at most. -/
def cost : Part → Nat
  | .flags _ => 0
  | .interface _ | .source _ | .bodiless .. => 4
  | .field .. => 10
  | .method _ _ _ body => 12 * body.length + 8

end Part

namespace ClassBuilder

theorem takes_memberHeader (flags : UInt16) {name descriptor : String} (short : IsShort name)
    (short' : IsShort descriptor) : Takes 4 (memberHeader flags name descriptor) :=
  (Numbering.takes_utf8 short).bind fun _ => (Numbering.takes_utf8 short').bind fun _ => .pure _

theorem takes_number {initial : Initial}
    (short : ∀ text, initial = .string text → IsShort text) : Takes 4 initial.number := by
  have item (constant : Constant) (fits : constant.FitsText) : Takes 4 (Numbering.item constant) :=
    (Numbering.takes_item constant fits).mono (by decide)
  cases initial with
  | int value => exact item (.integer value) trivial
  | long value => exact item (.long value) trivial
  | float bits => exact item (.float bits) trivial
  | double bits => exact item (.double bits) trivial
  | string text => exact Numbering.takes_string (short text rfl)

theorem takes_fieldBytes (flags : UInt16) {name descriptor : String} {initial : Option Initial}
    (short : ∀ text ∈ (Part.field flags name descriptor initial).texts, IsShort text) :
    Takes 10 (fieldBytes flags name descriptor initial) := by
  have called : IsShort "ConstantValue" := by decide +kernel
  have listed : name ∈ (Part.field flags name descriptor initial).texts ∧
      descriptor ∈ (Part.field flags name descriptor initial).texts ∧
      ∀ text, initial = some (.string text) →
        text ∈ (Part.field flags name descriptor initial).texts := by
    unfold Part.texts
    split <;> simp_all
  show Takes (4 + 6) (fieldBytes flags name descriptor initial)
  refine (takes_memberHeader flags (short _ listed.1) (short _ listed.2.1)).bind fun _ => ?_
  cases initial with
  | none => exact (Takes.pure _).mono (Nat.zero_le _)
  | some initial =>
      exact (Numbering.takes_utf8 called).bind fun _ =>
        (takes_number fun text same => short text (listed.2.2 text (congrArg some same))).bind
          fun _ => .pure _

theorem within_methodBytes {pool : PoolBuilder} {bound : Nat} (within : pool.Within bound)
    (flags : UInt16) {name descriptor : String} {body : List Line}
    (short : ∀ text ∈ (Part.method flags name descriptor body).texts, IsShort text) :
    ((methodBytes flags name descriptor body).run.run pool).2.Within
      (bound + (12 * body.length + 8)) := by
  have named := takes_memberHeader flags (short name (.head _))
    (short descriptor (.tail _ (.head _))) _ _ within
  have lines : ∀ line ∈ body, ∀ text ∈ line.texts, IsShort text := fun line member text inside =>
    short text (.tail _ (.tail _ (List.mem_flatMap.mpr ⟨line, member, inside⟩)))
  rw [run_methodBytes]
  cases MethodType.parse descriptor with
  | error error => exact named.mono (by omega)
  | ok type =>
      have coded := (methodProgram flags name descriptor body type pool).within_codeAttribute
        named lines
      dsimp only at coded ⊢
      split
      next equal =>
          rw [equal] at coded
          exact coded.mono (by simp only [methodProgram]; omega)
      next equal =>
          rw [equal] at coded
          exact coded.mono (by simp only [methodProgram]; omega)

/-- A class starts with the constants of two names, behind slot zero. -/
theorem within_start {name : String} {superclass : Option String} (short : IsShort name)
    (short' : ∀ above ∈ superclass, IsShort above) : (start name superclass).pool.Within 9 := by
  have takes {numbering : Numbering UInt16} (above : Takes 4 numbering) : Takes (4 + 4) (do
      let this ← Numbering.cls name
      let above ← numbering
      pure (this, above)) :=
    Takes.bind (Numbering.takes_cls short) fun _ => Takes.bind above fun _ => .pure _
  have empty : PoolBuilder.Within {} 1 := ⟨fun _ none => absurd none List.not_mem_nil, Nat.le_refl 1⟩
  cases superclass with
  | none => exact takes ((Takes.pure 0).mono (Nat.zero_le 4)) {} 1 empty
  | some above => exact takes (Numbering.takes_cls (short' above rfl)) {} 1 empty

/-- A part takes what it costs. -/
theorem within_add {builder : ClassBuilder} {bound : Nat} (within : builder.pool.Within bound)
    {part : Part} (short : ∀ text ∈ part.texts, IsShort text) :
    (builder.add part).pool.Within (bound + part.cost) := by
  cases part with
  | flags flags => exact within
  | interface name => exact Numbering.takes_cls (short name (.head _)) _ _ within
  | source file =>
      have called : IsShort "SourceFile" := by decide +kernel
      have takes : Takes 4 (do
          let attributeName ← Numbering.utf8 "SourceFile"
          let file ← Numbering.utf8 file
          pure (attributeName, file)) :=
        (Numbering.takes_utf8 called).bind fun _ =>
          (Numbering.takes_utf8 (short file (.head _))).bind fun _ => .pure _
      exact takes _ _ within
  | field flags name descriptor initial => exact takes_fieldBytes flags short _ _ within
  | method flags name descriptor body =>
      have takes := within_methodBytes within flags short
      rw [add]
      split
      next equal =>
          rw [equal] at takes
          exact takes
      next equal =>
          rw [equal] at takes
          exact takes
  | bodiless flags name descriptor =>
      exact takes_memberHeader flags (short name (.head _)) (short descriptor (.tail _ (.head _)))
        _ _ within

/-- Parts take what they cost together. -/
theorem within_foldl {builder : ClassBuilder} {bound : Nat} (within : builder.pool.Within bound)
    {parts : List Part} (short : ∀ part ∈ parts, ∀ text ∈ part.texts, IsShort text) :
    (parts.foldl add builder).pool.Within (bound + (parts.map Part.cost).sum) := by
  induction parts generalizing builder bound with
  | nil => exact within
  | cons part parts ih =>
      have here := within_add within (short part (.head _))
      have rest := ih here fun other member => short other (.tail _ member)
      rwa [List.map_cons, List.sum_cons, ← Nat.add_assoc]

end ClassBuilder

namespace ClassSpec

/-- The texts of a class that become constants. -/
def texts (spec : ClassSpec) : List String :=
  spec.name :: "java/lang/Object" :: spec.superclass.toList ++ spec.parts.flatMap Part.texts

/-- Whether a class is small enough to fit. -/
structure IsModest (spec : ClassSpec) : Prop where
  short : ∀ text ∈ spec.texts, IsShort text
  cost : 9 + (spec.parts.map Part.cost).sum < 65536
  few : spec.parts.length < 65536
  parts : ∀ part ∈ spec.parts, part.Fits

variable {spec : ClassSpec} (modest : spec.IsModest)

include modest

theorem IsModest.within : spec.builder.pool.Within (9 + (spec.parts.map Part.cost).sum) := by
  have listed : ∀ text, text = spec.name ∨ text = "java/lang/Object" ∨ spec.superclass = some text ∨
      (∃ part ∈ spec.parts, text ∈ part.texts) → IsShort text := by
    intro text member
    apply modest.short
    simpa [texts] using member
  have started : spec.start.pool.Within 9 := by
    unfold start
    split
    · show (ClassBuilder.start spec.name (some "java/lang/Object")).pool.Within 9
      refine ClassBuilder.within_start (listed _ (.inl rfl)) fun above same => listed above ?_
      exact .inr (.inl (Option.some.inj same).symm)
    · exact ClassBuilder.within_start (listed _ (.inl rfl)) fun above same =>
        listed above (.inr (.inr (.inl same)))
  exact ClassBuilder.within_foldl started fun part member text inside =>
    listed text (.inr (.inr (.inr ⟨part, member, inside⟩)))

/-- A class of a moderate size fits the format. -/
theorem IsModest.fits : spec.Fits where
  parts := modest.parts
  texts := modest.within.texts
  slots := Nat.lt_of_le_of_lt modest.within.slots modest.cost
  interfaces := Nat.lt_of_le_of_lt (List.length_filterMap_le _ _) modest.few
  fields := Nat.lt_of_le_of_lt (List.length_filter_le _ _) modest.few
  methods := Nat.lt_of_le_of_lt (List.length_filter_le _ _) modest.few

end ClassSpec

end Jvm.Assembler
