import Jvm.Machine.Breakpoints
import Jvm.Machine.Inspect
import Jvm.Proofs.Registry.Appending
import Jvm.Proofs.Registry.Recoding

/-!
# Breakpoints as other bytes

A breakpoint stands in the code in the place of a byte that is recorded. So the code of a
machine with breakpoints is that of the machine without them, with a breakpoint in every
place that is recorded, and the recorded bytes give back the one from the other.
-/

namespace Jvm

/-! ## Recodings -/

theorem Method.recode_recode (first second : Array UInt8 → Array UInt8) (method : Method) :
    (method.recode first).recode second = method.recode fun bytes => second (first bytes) := by
  simp only [recode, Option.map_map, Function.comp_def]

theorem Class.recode_recode (first second : Nat → Array UInt8 → Array UInt8) (cls : Class) :
    (cls.recode first).recode second =
      cls.recode fun method bytes => second method (first method bytes) := by
  simp only [recode, Array.mapIdx_mapIdx, Function.comp_def, Method.recode_recode]

namespace ClassTable

/-- The code of a method, by the indices of class and method. -/
def codeAt? (table : ClassTable) (cls method : Nat) : Option Code :=
  table.classes[cls]?.bind fun cls => cls.methods[method]?.bind (·.code)

variable (table : ClassTable)

theorem codeAt?_of_method {id : MethodId} {code : Code}
    (found : (table.method id).code = some code) :
    table.codeAt? id.owner.index id.index.toNat = some code := by
  rw [method, get, Array.getD_eq_getD_getElem?, Array.getD_eq_getD_getElem?] at found
  rw [codeAt?]
  cases classes : table.classes[id.owner.index]? with
  | none =>
      rw [classes] at found
      cases found
  | some cls =>
      rw [classes, Option.getD_some] at found
      cases methods : cls.methods[id.index.toNat]? with
      | none =>
          rw [methods] at found
          cases found
      | some method =>
          rw [methods, Option.getD_some] at found
          rw [Option.bind_some, methods, Option.bind_some, found]

/-- Bytes are the same if they are in the code that there is. -/
theorem recode_congr {first second : Recoding}
    (same : ∀ cls method code, table.codeAt? cls method = some code →
      first cls method code.bytecode = second cls method code.bytecode) :
    table.recode first = table.recode second := by
  have classes : (table.classes.mapIdx fun index cls => cls.recode (first index)) =
      table.classes.mapIdx fun index cls => cls.recode (second index) := by
    refine Array.mapIdx_eq_mapIdx_iff.mpr fun index within => ?_
    have methods : (table.classes[index].methods.mapIdx fun place method =>
        method.recode (first index place)) = table.classes[index].methods.mapIdx fun place method =>
          method.recode (second index place) := by
      refine Array.mapIdx_eq_mapIdx_iff.mpr fun place inside => ?_
      rw [Method.recode, Method.recode]
      cases own : table.classes[index].methods[place].code with
      | none => rfl
      | some code =>
          have found : table.codeAt? index place = some code := by
            rw [codeAt?, Array.getElem?_eq_getElem within, Option.bind_some,
              Array.getElem?_eq_getElem inside, Option.bind_some, own]
          rw [Option.map_some, Option.map_some, same index place code found]
    exact congrArg (fun methods => { table.classes[index] with methods }) methods
  exact congrArg (fun classes => { table with classes }) classes

theorem recode_recode (first second : Recoding) : (table.recode first).recode second =
    table.recode fun cls method bytes => second cls method (first cls method bytes) := by
  have classes : (table.classes.mapIdx fun index cls => cls.recode (first index)).mapIdx
      (fun index cls => cls.recode (second index)) = table.classes.mapIdx fun index cls =>
        cls.recode fun method bytes => second index method (first index method bytes) := by
    rw [Array.mapIdx_mapIdx]
    congr 1
    funext index cls
    exact cls.recode_recode _ _
  exact congrArg (fun classes => { table with classes }) classes

/-- Classes that are linked later leave the code that there is. -/
theorem Prefixes.codeAt? {table after : ClassTable} (prefixes : table.Prefixes after)
    {cls method : Nat} {code : Code} (found : table.codeAt? cls method = some code) :
    after.codeAt? cls method = some code := by
  have inside : cls < table.size := by
    refine Nat.lt_of_not_le fun beyond => ?_
    rw [ClassTable.codeAt?, Array.getElem?_eq_none beyond] at found
    cases found
  have further : cls < after.classes.size := Nat.lt_of_lt_of_le inside prefixes.size
  have within : cls < table.classes.size := inside
  have same : after.classes[cls] = table.classes[cls] := by
    have kept := prefixes.classes ⟨cls⟩ inside
    rwa [get, get, Array.getD_eq_getD_getElem?, Array.getD_eq_getD_getElem?,
      Array.getElem?_eq_getElem further, Array.getElem?_eq_getElem within] at kept
  rw [ClassTable.codeAt?, Array.getElem?_eq_getElem within] at found
  rw [ClassTable.codeAt?, Array.getElem?_eq_getElem further, same]
  exact found

end ClassTable

/-! ## Records -/

/-- The bytes under breakpoints, by their places. -/
abbrev Breakpoints := List ((MethodId × UInt32) × UInt8)

namespace Breakpoints

/-- The byte that is recorded for a place in the code of a method, by the indices of class
and method. -/
def byteAt? (breakpoints : Breakpoints) (cls method place : Nat) : Option UInt8 :=
  (breakpoints.find? fun ((id, pc), _) =>
    id.owner.index == cls && id.index.toNat == method && pc.toNat == place).map Prod.snd

/-- A breakpoint in every place that is recorded. -/
def stamping (breakpoints : Breakpoints) : Recoding := fun cls method bytes =>
  bytes.mapIdx fun place byte =>
    if (breakpoints.byteAt? cls method place).isSome then Opcode.breakpoint.byte else byte

/-- The recorded bytes in their places. -/
def restoring (breakpoints : Breakpoints) : Recoding := fun cls method bytes =>
  bytes.mapIdx fun place byte => (breakpoints.byteAt? cls method place).getD byte

/-- Whether what is recorded are the bytes of a table. -/
def Of (breakpoints : Breakpoints) (table : ClassTable) : Prop :=
  ∀ {cls method place byte}, breakpoints.byteAt? cls method place = some byte →
    ∃ code, table.codeAt? cls method = some code ∧ code.bytecode[place]? = some byte

variable {breakpoints : Breakpoints} {table : ClassTable}

theorem byteAt?_cons (id : MethodId) (pc : UInt32) (byte : UInt8) (cls method place : Nat) :
    byteAt? (((id, pc), byte) :: breakpoints) cls method place =
      if id.owner.index = cls ∧ id.index.toNat = method ∧ pc.toNat = place then some byte
      else breakpoints.byteAt? cls method place := by
  rw [byteAt?, List.find?_cons]
  split
  next same =>
      simp only [Bool.and_eq_true, beq_iff_eq] at same
      rw [if_pos ⟨same.1.1, same.1.2, same.2⟩]
      rfl
  next other =>
      rw [if_neg]
      · rfl
      · rintro ⟨rfl, rfl, rfl⟩
        simp only [beq_self_eq_true, Bool.and_self, Bool.true_eq_false] at other

/-- A place is known by its method and its pc. -/
theorem byteAt?_eq_lookup (id : MethodId) (pc : UInt32) :
    breakpoints.byteAt? id.owner.index id.index.toNat pc.toNat = breakpoints.lookup (id, pc) := by
  induction breakpoints with
  | nil => rfl
  | cons entry rest ih =>
      obtain ⟨⟨other, place⟩, byte⟩ := entry
      rw [byteAt?_cons, List.lookup_cons, ih]
      by_cases same : (id, pc) = (other, place)
      · cases same
        simp only [and_self, if_true, beq_self_eq_true]
      · rw [if_neg, beq_eq_false_iff_ne.mpr same]
        rintro ⟨owner, index, pcs⟩
        refine same (Prod.ext ?_ (UInt32.toNat_inj.mp pcs.symm))
        obtain ⟨⟨_⟩, _⟩ := other
        obtain ⟨⟨_⟩, _⟩ := id
        cases owner
        cases UInt16.toNat_inj.mp index
        rfl

theorem getElem?_stamping (breakpoints : Breakpoints) (cls method place : Nat)
    (bytes : Array UInt8) : (breakpoints.stamping cls method bytes)[place]? =
      bytes[place]?.map fun byte =>
        if (breakpoints.byteAt? cls method place).isSome then Opcode.breakpoint.byte else byte :=
  Array.getElem?_mapIdx

theorem getElem?_restoring (breakpoints : Breakpoints) (cls method place : Nat)
    (bytes : Array UInt8) : (breakpoints.restoring cls method bytes)[place]? =
      bytes[place]?.map fun byte => (breakpoints.byteAt? cls method place).getD byte :=
  Array.getElem?_mapIdx

/-- A breakpoint stands where it stands already. -/
theorem stamp_stamp (breakpoints : Breakpoints) (table : ClassTable) :
    (table.recode breakpoints.stamping).recode breakpoints.stamping =
      table.recode breakpoints.stamping := by
  rw [ClassTable.recode_recode]
  refine congrArg (fun recoding => table.recode recoding) ?_
  funext cls method bytes
  refine Array.ext_getElem? fun place => ?_
  rw [getElem?_stamping, getElem?_stamping, Option.map_map]
  refine congrArg (fun change => bytes[place]?.map change) ?_
  funext byte
  simp only [Function.comp_apply]
  split <;> rfl

section

variable (holds : breakpoints.Of table)

include holds

/-- Beyond the classes of the table nothing is recorded. -/
theorem Of.none_of_size_le {cls : Nat} (beyond : table.size ≤ cls) (method place : Nat) :
    breakpoints.byteAt? cls method place = none := by
  cases recorded : breakpoints.byteAt? cls method place with
  | none => rfl
  | some byte =>
      obtain ⟨code, found, -⟩ := holds recorded
      rw [ClassTable.codeAt?, Array.getElem?_eq_none beyond] at found
      cases found

theorem Of.endsAt_stamping : breakpoints.stamping.EndsAt table.size := by
  intro cls beyond
  funext method bytes
  refine Array.ext_getElem? fun place => ?_
  rw [getElem?_stamping, holds.none_of_size_le beyond]
  exact Option.map_id' ..

theorem Of.endsAt_restoring : breakpoints.restoring.EndsAt table.size := by
  intro cls beyond
  funext method bytes
  refine Array.ext_getElem? fun place => ?_
  rw [getElem?_restoring, holds.none_of_size_le beyond]
  exact Option.map_id' ..

/-- The recorded bytes give back the code that the breakpoints were set in. -/
theorem Of.restore_stamp :
    (table.recode breakpoints.stamping).recode breakpoints.restoring = table := by
  rw [ClassTable.recode_recode]
  refine Eq.trans (table.recode_congr fun cls method code found => ?_) table.recode_none
  refine Array.ext_getElem? fun place => ?_
  rw [getElem?_restoring, getElem?_stamping, Option.map_map]
  cases recorded : breakpoints.byteAt? cls method place with
  | none => exact Option.map_id' ..
  | some kept =>
      obtain ⟨other, same, there⟩ := holds recorded
      cases Option.some.inj (found.symm.trans same)
      rw [show (Recoding.none cls method code.bytecode)[place]? = some kept from there, there]
      rfl

theorem Of.prefixes {after : ClassTable} (prefixes : table.Prefixes after) :
    breakpoints.Of after := by
  intro cls method place byte recorded
  obtain ⟨code, found, there⟩ := holds recorded
  exact ⟨code, prefixes.codeAt? found, there⟩

end

/-! ## Setting a breakpoint -/

/-- A byte in the code of one method. -/
def patching (id : MethodId) (pc : UInt32) (byte : UInt8) : Recoding := fun cls method bytes =>
  if id.owner.index = cls ∧ id.index.toNat = method then bytes.setIfInBounds pc.toNat byte
  else bytes

theorem patch_eq_recode (machine : Machine) (id : MethodId) (pc : UInt32) (byte : UInt8) :
    machine.patch id pc byte =
      machine.modifyTable fun table => table.recode (patching id pc byte) := by
  refine congrArg (fun change => machine.modifyTable change) ?_
  funext table
  have methods : ∀ methods : Array Method,
      (methods.modify id.index.toNat fun method =>
        method.recode fun bytes => bytes.setIfInBounds pc.toNat byte) =
      methods.mapIdx fun index method => method.recode (patching id pc byte id.owner.index index) := by
    intro methods
    refine Array.ext_getElem? fun index => ?_
    rw [Array.getElem?_modify, Array.getElem?_mapIdx]
    split
    next same =>
        have changes : patching id pc byte id.owner.index index =
            fun bytes => bytes.setIfInBounds pc.toNat byte :=
          funext fun bytes => if_pos ⟨rfl, same⟩
        rw [changes]
    next other =>
        have keeps : patching id pc byte id.owner.index index = fun bytes => bytes :=
          funext fun bytes => if_neg fun both => other both.2
        simp only [keeps, Method.recode_id]
        exact (Option.map_id' ..).symm
  have classes : (table.classes.modify id.owner.index fun cls =>
      { cls with methods := cls.methods.modify id.index.toNat fun method =>
          method.recode fun bytes => bytes.setIfInBounds pc.toNat byte }) =
      table.classes.mapIdx fun index cls => cls.recode (patching id pc byte index) := by
    refine Array.ext_getElem? fun index => ?_
    rw [Array.getElem?_modify, Array.getElem?_mapIdx]
    split
    next same =>
        subst same
        simp only [methods]
        rfl
    next other =>
        have keeps : patching id pc byte index = Recoding.none index :=
          funext fun method => funext fun bytes => if_neg fun both => other both.1
        simp only [keeps, Class.recode_none]
        exact (Option.map_id' ..).symm
  exact congrArg (fun classes => { table with classes }) classes

/-- Another breakpoint is another recorded byte. -/
theorem stamping_cons (id : MethodId) (pc : UInt32) (byte : UInt8) (table : ClassTable) :
    (table.recode breakpoints.stamping).recode (patching id pc Opcode.breakpoint.byte) =
      table.recode (stamping (((id, pc), byte) :: breakpoints)) := by
  rw [ClassTable.recode_recode]
  refine congrArg (fun recoding => table.recode recoding) ?_
  funext cls method bytes
  refine Array.ext_getElem? fun place => ?_
  rw [getElem?_stamping, byteAt?_cons, patching]
  by_cases own : id.owner.index = cls ∧ id.index.toNat = method
  · rw [if_pos own]
    by_cases here : pc.toNat = place
    · rw [if_pos ⟨own.1, own.2, here⟩, here, Array.getElem?_setIfInBounds_self]
      simp only [stamping, Array.size_mapIdx]
      by_cases inside : place < bytes.size
      · rw [if_pos inside, Array.getElem?_eq_getElem inside]
        rfl
      · rw [if_neg inside, Array.getElem?_eq_none (Nat.le_of_not_lt inside)]
        rfl
    · rw [if_neg fun all => here all.2.2, Array.getElem?_setIfInBounds_ne here, getElem?_stamping]
  · rw [if_neg own, if_neg fun all => own ⟨all.1, all.2.1⟩, getElem?_stamping]

/-- A byte that is not under a breakpoint is one of the code without them. -/
theorem Of.cons (holds : breakpoints.Of table) {id : MethodId} {pc : UInt32} {byte : UInt8}
    {code : Code} (found : ((table.recode breakpoints.stamping).method id).code = some code)
    (there : code.bytecode[pc.toNat]? = some byte)
    (fresh : breakpoints.lookup (id, pc) = none) : Of (((id, pc), byte) :: breakpoints) table := by
  intro cls method place kept recorded
  rw [byteAt?_cons] at recorded
  split at recorded
  next own =>
      obtain ⟨rfl, rfl, rfl⟩ := own
      cases recorded
      rw [ClassTable.method_recode] at found
      cases own : (table.method id).code with
      | none =>
          rw [Method.recode, own] at found
          cases found
      | some plain =>
          rw [Method.recode, own] at found
          cases found
          refine ⟨plain, table.codeAt?_of_method own, ?_⟩
          rw [getElem?_stamping, byteAt?_eq_lookup, fresh] at there
          simpa only [Option.isSome_none, Bool.false_eq_true, if_false, Option.map_id'] using there
  next => exact holds recorded

end Breakpoints

/-! ## Machines that are debugged -/

/-- What a host does to debug a machine before it drives it: it attaches a debugger, asks it
for stops, and sets breakpoints. The classes of the breakpoints are linked in the plain
machine as well. -/
inductive Host.Debugs : Machine → Machine → Prop
  | plain (machine : Machine) : Debugs machine machine
  | attaches {plain machine : Machine} (debugs : Debugs plain machine) :
      Debugs plain machine.attachDebugger
  | asks {plain machine : Machine} (debugger : Debugger) (debugs : Debugs plain machine) :
      Debugs plain { machine with debugger }
  | breaks {plain linked machine after : Machine} {className name descriptor : String}
      {pc : UInt32} {owner : ClassId} {id : MethodId} (debugs : Debugs plain machine)
      (links : load className plain = .ok owner linked)
      (set : setBreakpoint className name descriptor pc machine = .ok id after) :
      Debugs linked after

namespace Machine

/-- A machine with a debugger and with breakpoints. -/
def withDebugger (machine : Machine) (debugger : Debugger) (attached : Bool)
    (breakpoints : Breakpoints) : Machine :=
  { machine with
    debugger, breakpoints, debuggerAttached := attached
    registry := machine.registry.recode breakpoints.stamping }

theorem patch_withDebugger (machine : Machine) (debugger : Debugger) (attached : Bool)
    (breakpoints : Breakpoints) (id : MethodId) (pc : UInt32) (byte : UInt8) :
    { (machine.withDebugger debugger attached breakpoints).patch id pc Opcode.breakpoint.byte with
      breakpoints := ((id, pc), byte) :: breakpoints } =
        machine.withDebugger debugger attached (((id, pc), byte) :: breakpoints) := by
  have table : (machine.registry.toClassTable.recode breakpoints.stamping).recode _ = _ :=
    Breakpoints.stamping_cons id pc byte machine.registry.toClassTable
  rw [Breakpoints.patch_eq_recode]
  simp only [withDebugger, modifyTable, Registry.recode, Registry.withTable, table]

end Machine

namespace Host

open Machine

theorem breakpoints_load {machine linked : Machine} {className : String} {owner : ClassId}
    (links : load className machine = .ok owner linked) :
    linked.breakpoints = machine.breakpoints := by
  simp only [load, linking] at links
  split at links <;> cases links
  rfl

/-- A class is linked beside breakpoints as it is without them. -/
theorem load_recode {registry : Registry} {breakpoints : Breakpoints}
    (holds : breakpoints.Of registry.toClassTable) (className : String) :
    (registry.recode breakpoints.stamping).load className =
      ((registry.load className).1, (registry.load className).2.recode breakpoints.stamping) :=
  (registry.link_withTable
    (Linking.overlooks_load (ClassTable.unnoticed_recode breakpoints.stamping)
      registry.path [] className) holds.endsAt_stamping).2

theorem load_withDebugger {plain linked : Machine} {breakpoints : Breakpoints}
    (holds : breakpoints.Of plain.registry.toClassTable) {className : String} {owner : ClassId}
    (links : load className plain = .ok owner linked) (debugger : Debugger) (attached : Bool) :
    breakpoints.Of linked.registry.toClassTable ∧
      load className (plain.withDebugger debugger attached breakpoints) =
        .ok owner (linked.withDebugger debugger attached breakpoints) := by
  have prefixes := (plain.registry.prefixes_load className).1
  simp only [load, linking] at links ⊢
  rw [show (plain.withDebugger debugger attached breakpoints).registry =
    plain.registry.recode breakpoints.stamping from rfl, load_recode holds]
  cases ran : plain.registry.load className with
  | mk loaded registry =>
      rw [ran] at links prefixes
      cases loaded with
      | error error => cases links
      | ok found =>
          cases links
          exact ⟨holds.prefixes prefixes, rfl⟩

/-- Code is looked for in a class that is linked if it is not there. -/
theorem findCode_of_load {machine between : Machine} {className name descriptor : String}
    {owner : ClassId} (loads : load className machine = .ok owner between) :
    Ends (findCode className name descriptor) machine (fun _ after => after = between)
      fun _ _ => True := by
  rw [findCode, ends_bind]
  refine Ends.of_ok loads ?_
  rw [ends_bind, ends_get]
  split
  · exact ends_throw.mpr trivial
  · split
    · exact ends_throw.mpr trivial
    · exact ends_pure.mpr rfl

/-- A breakpoint that is set is one that was set before, or a new one in the place of a byte
of the code. -/
theorem setBreakpoint_cases {machine between after : Machine}
    {className name descriptor : String} {pc : UInt32} {owner : ClassId} {id : MethodId}
    (loads : load className machine = .ok owner between)
    (set : setBreakpoint className name descriptor pc machine = .ok id after) :
    after = between ∨ ∃ code byte, (between.method id).code = some code ∧
      code.bytecode[pc.toNat]? = some byte ∧ between.breakpoints.lookup (id, pc) = none ∧
      after = { between.patch id pc Opcode.breakpoint.byte with
        breakpoints := ((id, pc), byte) :: between.breakpoints } := by
  have cases : Ends (setBreakpoint className name descriptor pc) machine
      (fun id after => after = between ∨ ∃ code byte, (between.method id).code = some code ∧
        code.bytecode[pc.toNat]? = some byte ∧ between.breakpoints.lookup (id, pc) = none ∧
        after = { between.patch id pc Opcode.breakpoint.byte with
          breakpoints := ((id, pc), byte) :: between.breakpoints }) fun _ _ => True := by
    rw [setBreakpoint, ends_bind]
    refine (findCode_of_load loads).mono ?_ fun _ _ _ => trivial
    rintro id _ rfl
    rw [ends_bind, ends_get]
    split
    · exact ends_pure.mpr (.inl rfl)
    next fresh =>
        split
        · exact ends_throw.mpr trivial
        next byte there =>
            obtain ⟨code, coded, there⟩ := Option.bind_eq_some_iff.mp there
            rw [ends_bind, ends_modify]
            refine ends_pure.mpr (.inr ⟨code, byte, coded, there, ?_, rfl⟩)
            exact Option.not_isSome_iff_eq_none.mp fresh
  have found := ends_of_ok set cases
  exact found

/-- A machine that is debugged is the plain one with a debugger and with breakpoints. -/
theorem Debugs.eq_withDebugger {plain machine : Machine} (debugs : Debugs plain machine)
    (clean : plain.breakpoints = []) :
    Breakpoints.Of machine.breakpoints plain.registry.toClassTable ∧
      machine = plain.withDebugger machine.debugger machine.debuggerAttached
        machine.breakpoints := by
  induction debugs with
  | plain machine =>
      have stays : Breakpoints.stamping machine.breakpoints = Recoding.none := by
        rw [clean]
        funext cls method bytes
        refine Array.ext_getElem? fun place => ?_
        rw [Breakpoints.getElem?_stamping]
        exact Option.map_id' ..
      refine ⟨fun recorded => ?_, ?_⟩
      · rw [clean] at recorded
        cases recorded
      · have table := machine.registry.toClassTable.recode_none
        simp only [withDebugger, stays, Registry.recode, Registry.withTable, table]
  | attaches debugs ih => exact ⟨(ih clean).1, congrArg Machine.attachDebugger (ih clean).2⟩
  | asks debugger debugs ih =>
      exact ⟨(ih clean).1, congrArg (fun machine : Machine => { machine with debugger }) (ih clean).2⟩
  | @breaks plain linked machine after _ _ _ pc _ id debugs links set ih =>
      obtain ⟨recorded, same⟩ := ih ((breakpoints_load links).symm.trans clean)
      generalize machine.debugger = debugger at same
      generalize machine.debuggerAttached = attached at same
      generalize machine.breakpoints = breakpoints at recorded same
      subst same
      obtain ⟨holds, loads⟩ := load_withDebugger recorded links debugger attached
      obtain rfl | ⟨code, byte, coded, there, fresh, rfl⟩ := setBreakpoint_cases loads set
      · exact ⟨holds, rfl⟩
      · exact ⟨holds.cons coded there fresh,
          linked.patch_withDebugger debugger attached breakpoints id pc byte⟩

end Host

end Jvm
