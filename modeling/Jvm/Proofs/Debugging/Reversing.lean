import Jvm.Proofs.Debugging.Patching
import Jvm.Proofs.Changing.Tracing
import Jvm.Proofs.Machine.Allocation
import Jvm.Proofs.Registry.Members
import Jvm.Proofs.Registry.Naming

/-!
# Breakpoints that are taken back

Setting and clearing breakpoints in any order, with calls that fail in between, never loses a
byte: the code of each method is the one that was read from its class file, with a breakpoint
in exactly the places that are recorded, and each record is the byte that was read there. So
clearing them all gives back what was read.
-/

namespace Jvm

/-! ## Code that was read -/

/-- Whether the methods of a class have the code of a class file of its name from a source. An
array class has no methods. -/
def Class.ReadFrom (source : ClassFile → Prop) (cls : Class) : Prop :=
  cls.methods = #[] ∨ ∃ file, source file ∧ file.name = cls.name ∧
    cls.methods.toList.map (·.code) = file.methods.toList.map (·.code)

theorem Class.readFrom_of_link {source : ClassFile → Prop} {id : ClassId} {file : ClassFile}
    {superclass : Option Class} {interfaces : List ClassId} {cls : Class} (given : source file)
    (linked : Class.link id file superclass interfaces = .ok cls) : cls.ReadFrom source := by
  refine .inr ⟨file, given, (Linking.links_of_link linked).name.symm, ?_⟩
  simp only [Class.link, Except.bind_eq_ok, pure, Except.pure, Except.ok.injEq] at linked
  obtain ⟨-, -, methods, each, rfl⟩ := linked
  rw [List.toList_toArray, ← List.forall₂_eq_eq_eq, List.forall₂_map_left_iff,
    List.forall₂_map_right_iff]
  refine List.Forall₂.flip ((mapM_eq_ok_iff.mp each).imp fun info method ran => ?_)
  simp only [Method.link, Except.bind_eq_ok, pure, Except.pure, Except.ok.injEq] at ran
  obtain ⟨type, -, rfl⟩ := ran
  rfl

/-- Whether a class file is read from some bytes. -/
def ClassFile.IsParsed (file : ClassFile) : Prop := ∃ bytes, ClassFile.parse bytes = .ok file

/-- A class path is read as its class files are. -/
theorem ClassPath.Provides.isParsed {path : ClassPath} {file : ClassFile}
    (provides : path.Provides file) : file.IsParsed := by
  have loads := provides.loads
  rw [load] at loads
  split at loads
  next bytes _ =>
      obtain ⟨held, parsed, checked⟩ := Except.bind_eq_ok.mp loads
      split at checked
      · cases checked
        exact ⟨bytes, parsed⟩
      · cases checked
  next => cases loads

theorem Class.ReadFrom.isParsed {path : ClassPath} {cls : Class}
    (read : cls.ReadFrom path.Provides) : cls.ReadFrom ClassFile.IsParsed :=
  read.imp_right fun ⟨file, provided, same⟩ => ⟨file, provided.isParsed, same⟩

namespace ClassTable

/-- Whether all code is as it was read. -/
def AsRead (table : ClassTable) : Prop :=
  ∀ id, table.Has id → (table.get id).ReadFrom ClassFile.IsParsed

end ClassTable

namespace Registry

/-- Whether all code is as it was read. -/
abbrev AsRead (registry : Registry) : Prop := registry.toClassTable.AsRead

/-- Whether a registry has more classes than another one, read from the files of its path. -/
structure Gains (before after : Registry) : Prop where
  path : after.path = before.path
  prefixes : before.Prefixes after.toClassTable
  added : ∀ id, after.Has id → ¬before.Has id → (after.get id).ReadFrom before.path.Provides

variable {before between after : Registry}

theorem Gains.refl (registry : Registry) : registry.Gains registry :=
  ⟨rfl, .refl _, fun _ known fresh => absurd known fresh⟩

theorem Gains.trans (left : before.Gains between) (right : between.Gains after) :
    before.Gains after where
  path := right.path.trans left.path
  prefixes := left.prefixes.trans right.prefixes
  added id known fresh := by
    by_cases inside : between.Has id
    · rw [right.prefixes.classes id inside]
      exact left.added id inside fresh
    · exact left.path ▸ right.added id known inside

theorem Gains.asRead (gains : before.Gains after) (asRead : before.AsRead) : after.AsRead := by
  intro id known
  by_cases inside : before.Has id
  · rw [gains.prefixes.classes id inside]
    exact asRead id inside
  · exact (gains.added id known inside).isParsed

end Registry

namespace Linking

open ClassTable

variable {source : ClassFile → Prop} {linking : List String} {before after : ClassTable}

/-- What is linked is read from files of the source. -/
theorem Extends.readFrom (extended : Extends source linking before after) {id : ClassId}
    (known : after.Has id) (fresh : ¬before.Has id) : (after.get id).ReadFrom source := by
  induction extended with
  | refl => exact absurd known fresh
  | @tail between after _ registers ih =>
      have last {cls : Class} (known : (between.register cls).Has id) (read : cls.ReadFrom source) :
          ((between.register cls).get id).ReadFrom source := by
        obtain inside | rfl := has_register between cls known
        · rw [get_register_of_has between cls inside]
          exact ih inside
        · rw [get_register_nextId]
          exact read
      cases registers with
      | file provided _ _ _ linked => exact last known (Class.readFrom_of_link provided linked)
      | array => exact last known (.inl rfl)

end Linking

namespace Registry

theorem extends_load {registry : Registry} (named : Linking.Named registry.toClassTable)
    (name : String) : Linking.Extends registry.path.Provides [] registry.toClassTable
      (registry.load name).2.toClassTable := by
  have loads := Linking.loads_load registry.path [] name registry.toClassTable named
  rw [Linking.Loads] at loads
  rw [load, link, EStateM.run]
  split
  next id table ran => exact (ends_of_ok ran loads).1.extends
  next error table ran => exact (ends_of_error ran loads).1

/-- A class that is loaded, or fails to be, adds what class files were read with. -/
theorem gains_load {registry : Registry} (named : Linking.Named registry.toClassTable)
    (name : String) : registry.Gains (registry.load name).2 where
  path := path_answer (.load name)
  prefixes := (registry.prefixes_load name).1
  added _ known fresh := (registry.extends_load named name).readFrom known fresh

end Registry

/-! ## Records -/

namespace Breakpoints

variable {breakpoints : Breakpoints} {table : ClassTable} {id : MethodId} {pc : UInt32}

/-- The records but for that of a place. -/
def without (breakpoints : Breakpoints) (id : MethodId) (pc : UInt32) : Breakpoints :=
  breakpoints.filter fun (place, _) => place ≠ (id, pc)

theorem lookup_without (id : MethodId) (pc : UInt32) (place : MethodId × UInt32) :
    (breakpoints.without id pc).lookup place =
      if place = (id, pc) then none else breakpoints.lookup place := by
  induction breakpoints with
  | nil => simp [without]
  | cons entry rest ih =>
      obtain ⟨key, byte⟩ := entry
      rw [without] at ih ⊢
      rw [List.filter_cons]
      by_cases cleared : key = (id, pc)
      · subst cleared
        simp only [ne_eq, not_true, decide_false, Bool.false_eq_true, if_false, ih]
        split
        · rfl
        next other => rw [List.lookup_cons, beq_eq_false_iff_ne.mpr other]
      · simp only [ne_eq, cleared, not_false_eq_true, decide_true, if_true, List.lookup_cons, ih]
        by_cases same : place = key
        · simp [same, cleared]
        · simp [beq_eq_false_iff_ne.mpr same]

theorem eq_nil_of_lookup (absent : ∀ place, breakpoints.lookup place = none) :
    breakpoints = [] := by
  cases breakpoints with
  | nil => rfl
  | cons entry rest =>
      have none := absent entry.1
      rw [List.lookup_cons, beq_self_eq_true] at none
      cases none

/-- Nothing recorded changes nothing. -/
theorem recode_nil (registry : Registry) : registry.recode (stamping []) = registry := by
  have table : registry.toClassTable.recode (stamping []) = registry.toClassTable := by
    refine Eq.trans (ClassTable.recode_congr _ fun cls method code _ => ?_)
      registry.toClassTable.recode_none
    refine Array.ext_getElem? fun place => ?_
    rw [getElem?_stamping]
    exact Option.map_id' ..
  exact congrArg (fun table => { registry with toClassTable := table }) table

theorem without_of_none (fresh : breakpoints.lookup (id, pc) = none) :
    breakpoints.without id pc = breakpoints := by
  refine List.filter_eq_self.mpr fun entry member => decide_eq_true fun here => ?_
  have other := List.lookup_eq_none_iff.mp fresh entry member
  simp [here] at other

/-- Places are told apart by the indices of class and method and by the pc. -/
theorem place_eq_iff {other : MethodId} {last : UInt32} : (other, last) = (id, pc) ↔
    id.owner.index = other.owner.index ∧ id.index.toNat = other.index.toNat ∧
      pc.toNat = last.toNat := by
  obtain ⟨⟨_⟩, _⟩ := id
  obtain ⟨⟨_⟩, _⟩ := other
  simp only [Prod.mk.injEq, MethodId.mk.injEq, ClassId.mk.injEq, UInt16.toNat_inj, UInt32.toNat_inj]
  constructor <;> (rintro ⟨⟩; simp_all)

theorem byteAt?_without (id : MethodId) (pc : UInt32) (cls method place : Nat) :
    (breakpoints.without id pc).byteAt? cls method place =
      if id.owner.index = cls ∧ id.index.toNat = method ∧ pc.toNat = place then none
      else breakpoints.byteAt? cls method place := by
  rw [byteAt?, without, List.find?_filter]
  split
  next own =>
    obtain ⟨rfl, rfl, rfl⟩ := own
    rw [List.find?_eq_none.mpr, Option.map_none]
    rintro ⟨⟨other, last⟩, byte⟩ - found
    obtain ⟨apart, here⟩ := of_decide_eq_true found
    simp only [Bool.and_eq_true, beq_iff_eq] at here
    refine of_decide_eq_true apart (place_eq_iff.mpr ?_)
    exact ⟨here.1.1.symm, here.1.2.symm, here.2.symm⟩
  next other =>
    rw [byteAt?]
    refine congrArg (Option.map Prod.snd) (congrArg (List.find? · breakpoints) (funext ?_))
    rintro ⟨⟨key, last⟩, byte⟩
    refine Bool.eq_iff_iff.mpr ⟨fun found => (of_decide_eq_true found).2, fun here => ?_⟩
    refine decide_eq_true ⟨decide_eq_true fun same => other ?_, here⟩
    simp only [Bool.and_eq_true, beq_iff_eq] at here
    cases same
    exact ⟨here.1.1, here.1.2, here.2⟩

section

variable (holds : breakpoints.Of table)

include holds

theorem Of.without (id : MethodId) (pc : UInt32) : Of (breakpoints.without id pc) table := by
  intro cls method place byte recorded
  rw [byteAt?_without] at recorded
  split at recorded
  · cases recorded
  · exact holds recorded

/-- The recorded byte in the place of a breakpoint leaves the other breakpoints. -/
theorem Of.stamping_without {byte : UInt8} (recorded : breakpoints.lookup (id, pc) = some byte) :
    (table.recode breakpoints.stamping).recode (patching id pc byte) =
      table.recode (stamping (breakpoints.without id pc)) := by
  rw [ClassTable.recode_recode]
  refine table.recode_congr fun cls method code found => ?_
  refine Array.ext_getElem? fun place => ?_
  rw [getElem?_stamping, byteAt?_without, patching]
  by_cases own : id.owner.index = cls ∧ id.index.toNat = method
  · rw [if_pos own]
    by_cases here : pc.toNat = place
    · rw [← byteAt?_eq_lookup, own.1, own.2, here] at recorded
      obtain ⟨other, same, there⟩ := holds recorded
      cases Option.some.inj (found.symm.trans same)
      have inside := (Array.getElem?_eq_some_iff.mp there).1
      rw [if_pos ⟨own.1, own.2, here⟩, here, Array.getElem?_setIfInBounds_self, there]
      simp only [stamping, Array.size_mapIdx]
      exact if_pos inside
    · rw [if_neg fun all => here all.2.2, Array.getElem?_setIfInBounds_ne here, getElem?_stamping]
  · rw [if_neg own, if_neg fun all => own ⟨all.1, all.2.1⟩, getElem?_stamping]

end

end Breakpoints

/-! ## Machines with breakpoints -/

/-- Whether the code of a machine is that of classes as they were read, with breakpoints in it
that record what was read. -/
structure Machine.Stamped (plain : Registry) (machine : Machine) : Prop where
  named : Linking.Named plain.toClassTable
  asRead : plain.AsRead
  records : Breakpoints.Of machine.breakpoints plain.toClassTable
  registry : machine.registry = plain.recode (Breakpoints.stamping machine.breakpoints)

/-- Whether nothing was done to the code and to the records of a machine, but that classes may
have been linked. -/
structure Machine.OnlyLinks (plain : Registry) (before after : Machine) : Prop where
  breakpoints : after.breakpoints = before.breakpoints
  stamped : ∃ linked : Registry, plain.Gains linked ∧ after.Stamped linked

/-- Whether the code of a machine is as it was read, with no breakpoint in it. -/
structure Machine.Pristine (machine : Machine) : Prop where
  clean : machine.breakpoints = []
  named : Linking.Named machine.registry.toClassTable
  asRead : machine.registry.AsRead

namespace Machine.Pristine

variable {machine later : Machine}

theorem of_same (pristine : machine.Pristine)
    (same : (later.breakpoints, later.registry) = (machine.breakpoints, machine.registry)) :
    later.Pristine := by
  obtain ⟨breakpoints, registry⟩ := Prod.mk.inj same
  exact ⟨breakpoints.trans pristine.clean, registry ▸ pristine.named, registry ▸ pristine.asRead⟩

theorem stamped (pristine : machine.Pristine) : machine.Stamped machine.registry where
  named := pristine.named
  asRead := pristine.asRead
  records := fun recorded => by
    rw [pristine.clean] at recorded
    cases recorded
  registry := by rw [pristine.clean, Breakpoints.recode_nil]

/-- The core classes are linked as they are read. -/
theorem of_linked {config : Config} {path : ClassPath}
    (started : Machine.linked config path = .ok machine) : machine.Pristine := by
  obtain ⟨core, table, known, extended, -, -, rfl⟩ := exists_core_of_linked started
  exact ⟨rfl, Linking.Extends.named extended ClassTable.Laid.empty.named,
    fun _ known => (Linking.Extends.readFrom extended known (Nat.not_lt_zero _)).isParsed⟩

/-- The class of an exception that is made is linked as it is read. -/
theorem ends_newThrowable (pristine : machine.Pristine) (className : String)
    (message : Option String) :
    Ends (Guest.newThrowable className message) machine (fun _ => Pristine) fun _ => Pristine := by
  have linked : Pristine { machine with registry := (machine.registry.load className).2 } :=
    have extended := Registry.extends_load pristine.named className
    ⟨pristine.clean, Linking.Extends.named extended pristine.named,
      (Registry.gains_load pristine.named className).asRead pristine.asRead⟩
  have spared {α : Type} {step : Guest α}
      (spares : Spares (fun machine => (machine.breakpoints, machine.registry)) step) :
      Ends step { machine with registry := (machine.registry.load className).2 }
        (fun _ => Pristine) fun _ => Pristine :=
    (spares _).mono (fun _ _ => linked.of_same) fun _ _ => linked.of_same
  rw [Guest.newThrowable, Guest.loadRaw, ends_bind]
  refine Ends.of_ok rfl (spared ((Guest.spares_ofLoad _).bind fun id => ?_))
  apply (Guest.spares_newInstance (fun _ _ => rfl) id).bind
  intro ref
  cases message with
  | none => exact Spares.pure ref
  | some message =>
      apply (Guest.spares_newString (fun _ _ => rfl) message).bind
      intro text
      apply Spares.bind
      · exact Spares.modify fun _ => rfl
      · exact fun _ => Spares.pure ref

theorem of_start {config : Config} {classes : ClassPath}
    (started : Machine.start config classes = .ok machine) : machine.Pristine := by
  simp only [Machine.start, Except.bind_eq_ok] at started
  obtain ⟨library, -, before, linked, prepared⟩ := started
  have pristine := of_linked linked
  rw [prepareOutOfMemory] at prepared
  dsimp only at prepared
  split at prepared
  next ref made ran =>
      cases prepared
      exact (ends_of_ok ran (pristine.ends_newThrowable _ _)).of_same rfl
  next => cases prepared
  next => cases prepared

end Machine.Pristine

namespace Machine.Stamped

variable {plain : Registry} {machine : Machine} (stamped : machine.Stamped plain)

include stamped

theorem clearBreakpoint (id : MethodId) (pc : UInt32) :
    (machine.clearBreakpoint id pc).2.breakpoints =
        Breakpoints.without machine.breakpoints id pc ∧
      (machine.clearBreakpoint id pc).2.Stamped plain := by
  rw [Machine.clearBreakpoint]
  split
  next fresh => exact ⟨(Breakpoints.without_of_none fresh).symm, stamped⟩
  next byte recorded =>
    refine ⟨rfl, stamped.named, stamped.asRead,
      Breakpoints.Of.without stamped.records id pc, ?_⟩
    have table := Breakpoints.Of.stamping_without stamped.records recorded
    rw [Breakpoints.patch_eq_recode]
    change (machine.registry.withTable fun table => table.recode _) = _
    rw [stamped.registry]
    exact congrArg (fun table => { plain with toClassTable := table }) table

/-- Clearing breakpoints one after the other leaves no record of a place that was cleared. -/
theorem foldl_clearBreakpoint (places : List (MethodId × UInt32)) :
    let after := places.foldl (fun machine (id, pc) => (machine.clearBreakpoint id pc).2) machine
    (∀ place ∈ places, after.breakpoints.lookup place = none) ∧
      (∀ place, machine.breakpoints.lookup place = none → after.breakpoints.lookup place = none) ∧
      after.Stamped plain := by
  induction places generalizing machine with
  | nil => exact ⟨fun _ never => (List.not_mem_nil never).elim, fun _ fresh => fresh, stamped⟩
  | cons place rest ih =>
      obtain ⟨id, pc⟩ := place
      obtain ⟨records, first⟩ := stamped.clearBreakpoint id pc
      have lookups (place : MethodId × UInt32) :=
        (congrArg (List.lookup place) records).trans (Breakpoints.lookup_without id pc place)
      obtain ⟨cleared, kept, last⟩ := ih first
      rw [List.foldl_cons]
      refine ⟨fun place member => ?_, fun place fresh => kept place ?_, last⟩
      · obtain rfl | later := List.mem_cons.mp member
        · exact kept _ ((lookups _).trans (if_pos rfl))
        · exact cleared place later
      · rw [lookups, fresh, ite_self]

/-- Clearing all breakpoints leaves no record. -/
theorem clearBreakpoints : machine.clearBreakpoints.breakpoints = [] ∧
    machine.clearBreakpoints.Stamped plain := by
  obtain ⟨cleared, kept, last⟩ := stamped.foldl_clearBreakpoint (machine.breakpoints.map Prod.fst)
  have empty : machine.clearBreakpoints.breakpoints = [] := by
    refine Breakpoints.eq_nil_of_lookup fun place => ?_
    by_cases member : place ∈ machine.breakpoints.map Prod.fst
    · exact cleared place member
    · refine kept place (List.lookup_eq_none_iff.mpr fun entry inside => ?_)
      refine bne_iff_ne.mpr fun same => member ?_
      exact same ▸ List.mem_map_of_mem inside
  exact ⟨empty, last⟩

/-- Without breakpoints the code is as it was read. -/
theorem registry_eq (none : machine.breakpoints = []) : machine.registry = plain := by
  rw [stamped.registry, none, Breakpoints.recode_nil]

/-- Another breakpoint records the byte in whose place it stands. -/
theorem addBreakpoint {id : MethodId} {pc : UInt32} {code : Code} {byte : UInt8}
    (found : (machine.method id).code = some code) (there : code.bytecode[pc.toNat]? = some byte)
    (fresh : machine.breakpoints.lookup (id, pc) = none) :
    Stamped plain { machine.patch id pc Opcode.breakpoint.byte with
      breakpoints := ((id, pc), byte) :: machine.breakpoints } := by
  have coded : ((plain.toClassTable.recode (Breakpoints.stamping machine.breakpoints)).method
      id).code = some code := by
    rw [Machine.method, stamped.registry] at found
    exact found
  refine ⟨stamped.named, stamped.asRead,
    Breakpoints.Of.cons stamped.records coded there fresh, ?_⟩
  rw [Breakpoints.patch_eq_recode]
  change (machine.registry.withTable fun table => table.recode _) = _
  rw [stamped.registry]
  exact congrArg (fun table => { plain with toClassTable := table })
    (Breakpoints.stamping_cons id pc byte plain.toClassTable)

end Machine.Stamped

/-! ## Calls -/

namespace Machine.OnlyLinks

variable {plain : Registry} {before after : Machine}

/-- The classes that were there are as they were, with their code. -/
theorem get_eq (only : before.OnlyLinks plain after) (stamped : before.Stamped plain)
    {id : ClassId} (known : before.registry.Has id) :
    after.registry.get id = before.registry.get id := by
  obtain ⟨linked, gains, later⟩ := only.stamped
  rw [stamped.registry] at known
  have inside : plain.Has id := Nat.lt_of_lt_of_eq known (ClassTable.size_recode _ _)
  rw [later.registry, stamped.registry, only.breakpoints]
  refine (ClassTable.get_recode _ _ id).trans (Eq.trans ?_ (ClassTable.get_recode _ _ id).symm)
  rw [gains.prefixes.classes id inside]

/-- Classes that were linked before are the first of those that are linked. -/
theorem later {first : Registry} {start : Machine} (only : before.OnlyLinks plain after)
    (gains : first.Gains plain)
    (same : before.breakpoints = start.breakpoints) : start.OnlyLinks first after := by
  obtain ⟨linked, more, stamped⟩ := only.stamped
  exact ⟨only.breakpoints.trans same, linked, gains.trans more, stamped⟩

end Machine.OnlyLinks

/-- Whether there is a breakpoint at a place that there may not have been. -/
structure Machine.Sets (plain : Registry) (before : Machine) (id : MethodId) (pc : UInt32)
    (after : Machine) : Prop where
  recorded : (after.breakpoints.lookup (id, pc)).isSome = true
  kept : ∀ place, place ≠ (id, pc) →
    after.breakpoints.lookup place = before.breakpoints.lookup place
  stamped : ∃ linked : Registry, plain.Gains linked ∧ after.Stamped linked

theorem Machine.Sets.later {plain first : Registry} {start before after : Machine} {id : MethodId}
    {pc : UInt32} (sets : before.Sets plain id pc after)
    (gains : first.Gains plain)
    (same : before.breakpoints = start.breakpoints) : start.Sets first id pc after := by
  obtain ⟨linked, more, stamped⟩ := sets.stamped
  exact ⟨sets.recorded, fun place other => same ▸ sets.kept place other, linked,
    gains.trans more, stamped⟩

namespace Host

open Machine

variable {plain : Registry} {machine : Machine} (stamped : machine.Stamped plain)

include stamped

/-- Whether a class loads or not, it and what it needs are linked as they are read. -/
theorem ends_load_stamped (className : String) :
    Ends (load className) machine (fun _ => machine.OnlyLinks plain)
      fun _ => machine.OnlyLinks plain := by
  have loads := load_recode stamped.records className
  rw [← stamped.registry] at loads
  have gains := Registry.gains_load stamped.named className
  have extended := plain.extends_load stamped.named className
  have links : machine.OnlyLinks plain
      { machine with registry := (machine.registry.load className).2 } :=
    ⟨rfl, (plain.load className).2, gains, Linking.Extends.named extended stamped.named,
      gains.asRead stamped.asRead, Breakpoints.Of.prefixes stamped.records gains.prefixes,
      congrArg Prod.snd loads⟩
  cases ran : machine.registry.load className with
  | mk loaded registry =>
      rw [ran] at links
      cases loaded with
      | ok owner =>
          have returned : load className machine = .ok owner { machine with registry } := by
            simp only [load, linking, ran]
          exact Ends.of_ok returned links
      | error error =>
          have failed : load className machine = .error (.load error) { machine with registry } := by
            simp only [load, linking, ran]
          exact Ends.of_error failed links

theorem ends_findCode_stamped (className name descriptor : String) :
    Ends (findCode className name descriptor) machine (fun _ => machine.OnlyLinks plain)
      fun _ => machine.OnlyLinks plain := by
  rw [findCode, ends_bind]
  refine (ends_load_stamped stamped className).mono (fun owner after only => ?_) fun _ _ only => only
  rw [ends_bind, ends_get]
  split
  · exact ends_throw.mpr only
  · split
    · exact ends_throw.mpr only
    · exact ends_pure.mpr only

/-- Setting a breakpoint records its place, or fails and leaves code and records as they were. -/
theorem ends_setBreakpoint_stamped (className name descriptor : String) (pc : UInt32) :
    Ends (setBreakpoint className name descriptor pc) machine
      (fun id after => machine.Sets plain id pc after) fun _ => machine.OnlyLinks plain := by
  rw [setBreakpoint, ends_bind]
  refine (ends_findCode_stamped stamped className name descriptor).mono (fun id between only => ?_)
    fun _ _ only => only
  obtain ⟨linked, gains, later⟩ := only.stamped
  rw [ends_bind, ends_get]
  split
  next recorded =>
    exact ends_pure.mpr ⟨recorded, fun _ _ => by rw [only.breakpoints], linked, gains, later⟩
  next fresh =>
    split
    · exact ends_throw.mpr only
    next byte there =>
      obtain ⟨code, found, there⟩ := Option.bind_eq_some_iff.mp there
      rw [ends_bind, ends_modify]
      refine ends_pure.mpr ⟨?_, fun place other => ?_, linked, gains,
        later.addBreakpoint found there (Option.not_isSome_iff_eq_none.mp fresh)⟩
      · change (List.lookup _ (_ :: _)).isSome = true
        rw [List.lookup_cons, beq_self_eq_true]
        rfl
      · change List.lookup _ (_ :: _) = _
        rw [List.lookup_cons, beq_eq_false_iff_ne.mpr other, only.breakpoints]

/-- So does setting one by its line. -/
theorem ends_setLineBreakpoint_stamped (className name descriptor : String) (line : UInt32) :
    Ends (setLineBreakpoint className name descriptor line) machine
      (fun id after => ∃ pc, machine.Sets plain id pc after) fun _ => machine.OnlyLinks plain := by
  rw [setLineBreakpoint, ends_bind]
  refine (ends_findCode_stamped stamped className name descriptor).mono (fun id between only => ?_)
    fun _ _ only => only
  obtain ⟨linked, gains, later⟩ := only.stamped
  rw [ends_bind, ends_get]
  split
  · exact ends_throw.mpr only
  next pc _ =>
    exact (ends_setBreakpoint_stamped later className name descriptor pc).mono
      (fun id after sets => ⟨pc, sets.later gains only.breakpoints⟩)
      fun _ after fails => fails.later gains only.breakpoints

end Host

/-- What a host does with breakpoints. -/
inductive BreakpointCall
  | set (className name descriptor : String) (pc : UInt32)
  | setLine (className name descriptor : String) (line : UInt32)
  | clear (id : MethodId) (pc : UInt32)
  | clearAll

namespace BreakpointCall

open Machine

/-- Makes a call, and answers whether there was a breakpoint to set or to clear. -/
def run : BreakpointCall → Host Bool
  | set className name descriptor pc => do
    let _ ← Host.setBreakpoint className name descriptor pc
    pure true
  | setLine className name descriptor line => do
    let _ ← Host.setLineBreakpoint className name descriptor line
    pure true
  | clear id pc => modifyGet fun machine => machine.clearBreakpoint id pc
  | clearAll => do
    modify Machine.clearBreakpoints
    pure true

/-- Whether a machine comes from another one by a call, successful or not. -/
inductive Turns (before : Machine) : Machine → Prop
  | returns {call : BreakpointCall} {answer : Bool} {after : Machine}
      (ran : call.run before = .ok answer after) : Turns before after
  | fails {call : BreakpointCall} {error : Error} {after : Machine}
      (ran : call.run before = .error error after) : Turns before after

variable {plain : Registry} {machine before after : Machine}

/-- Whatever is called, code stays as it was read but for the breakpoints that are recorded, and
a call that fails leaves both. -/
theorem ends_run (stamped : machine.Stamped plain) (call : BreakpointCall) :
    Ends call.run machine
      (fun answer after => (answer = false → after = machine) ∧
        ∃ linked : Registry, plain.Gains linked ∧ after.Stamped linked)
      fun _ => machine.OnlyLinks plain := by
  cases call with
  | set className name descriptor pc =>
      rw [run, ends_bind]
      exact (Host.ends_setBreakpoint_stamped stamped className name descriptor pc).mono
        (fun _ _ sets => ends_pure.mpr ⟨nofun, sets.stamped⟩) fun _ _ fails => fails
  | setLine className name descriptor line =>
      rw [run, ends_bind]
      exact (Host.ends_setLineBreakpoint_stamped stamped className name descriptor line).mono
        (fun _ _ ⟨_, sets⟩ => ends_pure.mpr ⟨nofun, sets.stamped⟩) fun _ _ fails => fails
  | clear id pc =>
      refine ends_modifyGet.mpr ⟨fun missed => ?_, plain, .refl _,
        (stamped.clearBreakpoint id pc).2⟩
      rw [Machine.clearBreakpoint] at missed ⊢
      split at missed
      · rfl
      · cases missed
  | clearAll =>
      rw [run, ends_bind, ends_modify]
      exact ends_pure.mpr ⟨nofun, plain, .refl _, stamped.clearBreakpoints.2⟩

theorem Turns.stamped (turns : Turns before after) (stamped : before.Stamped plain) :
    ∃ linked : Registry, plain.Gains linked ∧ after.Stamped linked := by
  cases turns with
  | @returns call _ _ ran => exact (ends_of_ok ran (ends_run stamped call)).2
  | @fails call _ _ ran => exact (ends_of_error ran (ends_run stamped call)).stamped

theorem stamped_of_turns (run : Relation.ReflTransGen Turns before after)
    (stamped : before.Stamped plain) :
    ∃ linked : Registry, plain.Gains linked ∧ after.Stamped linked := by
  induction run with
  | refl => exact ⟨plain, .refl _, stamped⟩
  | tail _ turns ih =>
      obtain ⟨between, first, stamped⟩ := ih
      obtain ⟨linked, second, stamped⟩ := turns.stamped stamped
      exact ⟨linked, first.trans second, stamped⟩

end BreakpointCall

/-! ## Reversing -/

/-- Code with a breakpoint in each place of a method that is recorded. -/
def Code.withBreakpoints (breakpoints : Breakpoints) (id : MethodId) (code : Code) : Code :=
  { code with bytecode := code.bytecode.mapIdx fun place byte =>
      if breakpoints.any fun ((other, pc), _) => other = id ∧ pc.toNat = place then
        Opcode.breakpoint.byte
      else byte }

theorem Breakpoints.isSome_byteAt? (breakpoints : Breakpoints) (id : MethodId) (place : Nat) :
    (breakpoints.byteAt? id.owner.index id.index.toNat place).isSome =
      breakpoints.any fun ((other, pc), _) => other = id ∧ pc.toNat = place := by
  rw [byteAt?, Option.isSome_map, List.isSome_find?]
  refine congrArg (List.any breakpoints) (funext ?_)
  rintro ⟨⟨⟨⟨owner⟩, index⟩, pc⟩, byte⟩
  obtain ⟨⟨_⟩, _⟩ := id
  simp only [MethodId.mk.injEq, ClassId.mk.injEq, Bool.decide_and, ← UInt16.toNat_inj]
  rfl

theorem ClassTable.method_of_codeAt? {table : ClassTable} {id : MethodId} {code : Code}
    (found : table.codeAt? id.owner.index id.index.toNat = some code) :
    (table.method id).code = some code := by
  obtain ⟨cls, linked, found⟩ := Option.bind_eq_some_iff.mp found
  obtain ⟨method, declared, found⟩ := Option.bind_eq_some_iff.mp found
  rw [ClassTable.method, ClassTable.get, Array.getD_eq_getD_getElem?, Array.getD_eq_getD_getElem?,
    linked, Option.getD_some, declared, Option.getD_some, found]

namespace Machine

/-- What a machine with breakpoints has for the code of a method. -/
theorem Stamped.code_eq {plain : Registry} {machine : Machine} (stamped : machine.Stamped plain)
    (id : MethodId) : (machine.method id).code =
      (plain.method id).code.map (Code.withBreakpoints machine.breakpoints id) := by
  have same := ClassTable.method_recode (Breakpoints.stamping machine.breakpoints)
    plain.toClassTable id
  rw [Machine.method, stamped.registry]
  refine (congrArg Method.code same).trans (congrArg (Option.map · (plain.method id).code) ?_)
  funext code
  simp only [Code.withBreakpoints, Breakpoints.stamping, Breakpoints.isSome_byteAt?]

/-- What is recorded is a byte that was read. -/
theorem Stamped.record_eq {plain : Registry} {machine : Machine} (stamped : machine.Stamped plain)
    {id : MethodId} {pc : UInt32} {byte : UInt8}
    (recorded : machine.breakpoints.lookup (id, pc) = some byte) :
    ∃ code, (plain.method id).code = some code ∧ code.bytecode[pc.toNat]? = some byte := by
  rw [← Breakpoints.byteAt?_eq_lookup] at recorded
  obtain ⟨code, found, there⟩ := stamped.records recorded
  exact ⟨code, ClassTable.method_of_codeAt? found, there⟩

/-- Breakpoints are taken back. A machine starts with code as it was read, each class's from a file
of its name; the classes that calls link are read from the class path. After any calls, code is
what was read with breakpoints in exactly the places that are recorded, each record is what was
read there, a call that fails changes neither, and clearing all breakpoints gives back what was
read. -/
theorem breakpoints_reversible {origin later : Machine} (pristine : origin.Pristine)
    (turns : Relation.ReflTransGen BreakpointCall.Turns origin later) :
    (∀ config classes machine, start config classes = .ok machine → machine.Pristine) ∧
    ∃ plain : Registry, origin.registry.Prefixes plain.toClassTable ∧ plain.AsRead ∧
      (∀ id, plain.Has id → ¬origin.registry.Has id →
        (plain.get id).ReadFrom origin.registry.path.Provides) ∧
      (∀ id, (later.method id).code =
        (plain.method id).code.map (Code.withBreakpoints later.breakpoints id)) ∧
      (∀ id pc byte, later.breakpoints.lookup (id, pc) = some byte →
        ∃ code, (plain.method id).code = some code ∧ code.bytecode[pc.toNat]? = some byte) ∧
      (∀ (call : BreakpointCall) after, (call.run later = .ok false after → after = later) ∧
        ∀ error, call.run later = .error error after → after.breakpoints = later.breakpoints ∧
          ∀ id, later.registry.Has id → after.registry.get id = later.registry.get id) ∧
      (∀ className name descriptor pc id after,
        Host.setBreakpoint className name descriptor pc later = .ok id after →
        (after.breakpoints.lookup (id, pc)).isSome = true ∧
          ∀ place, place ≠ (id, pc) →
            after.breakpoints.lookup place = later.breakpoints.lookup place) ∧
      (∀ id pc, (later.clearBreakpoint id pc).1 = (later.breakpoints.lookup (id, pc)).isSome ∧
        ∀ place, (later.clearBreakpoint id pc).2.breakpoints.lookup place =
          if place = (id, pc) then none else later.breakpoints.lookup place) ∧
      later.clearBreakpoints.breakpoints = [] ∧ later.clearBreakpoints.registry = plain := by
  obtain ⟨plain, gains, stamped⟩ := BreakpointCall.stamped_of_turns turns pristine.stamped
  obtain ⟨empty, cleared⟩ := stamped.clearBreakpoints
  refine ⟨fun _ _ _ => Pristine.of_start, plain, gains.prefixes, stamped.asRead,
    fun id => gains.added id, stamped.code_eq,
    fun _ _ _ => stamped.record_eq, fun call after => ⟨fun ran => ?_, fun error ran => ?_⟩, ?_,
    fun id pc => ⟨?_, fun place => ?_⟩, empty, cleared.registry_eq empty⟩
  · exact (ends_of_ok ran (BreakpointCall.ends_run stamped call)).1 rfl
  · have only := ends_of_error ran (BreakpointCall.ends_run stamped call)
    exact ⟨only.breakpoints, fun id known => only.get_eq stamped known⟩
  · intro className name descriptor pc id after ran
    have sets := ends_of_ok ran
      (Host.ends_setBreakpoint_stamped stamped className name descriptor pc)
    exact ⟨sets.recorded, sets.kept⟩
  · rw [Machine.clearBreakpoint]
    split
    next fresh => rw [fresh]; rfl
    next byte recorded => rw [recorded]; rfl
  · exact (congrArg (List.lookup place) (stamped.clearBreakpoint id pc).1).trans
      (Breakpoints.lookup_without id pc place)

/-- A class file of a class with one method, which returns. -/
def returningFile : Array UInt8 :=
  ClassFile.Outline.bytes
    { flags := Access.isPublic, name := "F", methods := [⟨Access.isStatic, "f", "()V"⟩] } [0xB1]

/-- A machine that has linked this class. -/
def returning : Machine :=
  let code : Code :=
    { maxStack := 2, maxLocals := 2, bytecode := #[0xB1], handlers := [], lines := [] }
  let method : Method :=
    { (default : Method) with name := "f", descriptor := "()V", code := some code }
  { (default : Machine) with
    registry :=
      { (default : Registry) with
        classes := #[{ (default : Class) with name := "F", methods := #[method] }]
        byName := Std.HashMap.emptyWithCapacity.insert "F" ⟨0⟩ } }

theorem asRead_returning : returning.registry.AsRead := by
  intro id known
  have first : id = ⟨0⟩ := congrArg ClassId.mk (Nat.lt_one_iff.mp known)
  subst first
  have shown : (ClassFile.parse returningFile).toOption.map (fun file =>
      (file.name, file.methods.toList.map (·.code))) =
        some ("F", (returning.registry.get ⟨0⟩).methods.toList.map (·.code)) := by
    decide +kernel
  cases parsed : ClassFile.parse returningFile with
  | error error =>
      rw [parsed] at shown
      cases shown
  | ok file =>
      rw [parsed] at shown
      obtain ⟨named, coded⟩ := Prod.mk.inj (Option.some.inj shown)
      exact .inr ⟨file, ⟨returningFile, parsed⟩, named, coded.symm⟩

theorem find?_returning (name : String) :
    returning.registry.find? name = if "F" = name then some ⟨0⟩ else none := by
  change (Std.HashMap.emptyWithCapacity.insert "F" (⟨0⟩ : ClassId))[name]? = _
  rw [Std.HashMap.getElem?_insert]
  by_cases same : "F" = name
  · rw [if_pos (beq_iff_eq.mpr same), if_pos same]
  · rw [if_neg (by simpa using same), if_neg same]
    exact Std.HashMap.getElem?_emptyWithCapacity

/-- A breakpoint is set in the place of the only byte, and the byte is recorded. -/
theorem breakpoints_reversible_returning : ∃ later : Machine,
    Relation.ReflTransGen BreakpointCall.Turns returning later ∧
    later.breakpoints = [((⟨⟨0⟩, 0⟩, 0), 0xB1)] ∧
    (later.method ⟨⟨0⟩, 0⟩).code.map (·.bytecode) = some #[0xCA] ∧
    (later.clearBreakpoints.method ⟨⟨0⟩, 0⟩).code.map (·.bytecode) = some #[0xB1] := by
  have named : Linking.Named returning.registry.toClassTable := by
    intro name id found
    rw [find?_returning] at found
    split at found <;> cases found
    exact Nat.zero_lt_one
  have loaded : Host.load "F" returning = .ok ⟨0⟩ returning := by
    simp only [Host.load, Host.linking,
      Registry.load_eq_of_find? ((find?_returning "F").trans (if_pos rfl))]
  have finds : Host.findCode "F" "f" "()V" returning = .ok ⟨⟨0⟩, 0⟩ returning := by
    have declared : (returning.cls ⟨0⟩).declaredMethod? "f" "()V" = some ⟨⟨0⟩, 0⟩ := by
      decide +kernel
    refine (bind_of_ok loaded).trans ?_
    simp only [bind, EStateM.bind, run_get, declared]
    rfl
  have set : Host.setBreakpoint "F" "f" "()V" 0 returning = .ok ⟨⟨0⟩, 0⟩ _ :=
    (bind_of_ok finds).trans rfl
  have runs : (BreakpointCall.set "F" "f" "()V" 0).run returning = .ok true _ := bind_of_ok set
  have turns : BreakpointCall.Turns returning _ := .returns runs
  obtain ⟨-, plain, prefixes, -, -, -, -, -, -, -, -, cleared⟩ :=
    breakpoints_reversible ⟨rfl, named, asRead_returning⟩ (.single turns)
  refine ⟨_, .single turns, rfl, rfl, ?_⟩
  rw [Machine.method, cleared, ClassTable.method, prefixes.classes ⟨0⟩ Nat.zero_lt_one]
  rfl

end Machine

end Jvm
