import Jvm.Proofs.Debugging.Accompanying
import Jvm.Proofs.Registry.Naming

/-!
# Breakpoints are transparent

An execution that was prepared for a host ends the same with breakpoints in its code as
without, wherever it is stopped on the way and however the host lets it go on: with the same
value or error, the same objects, classes and output. The host has to be the only one that
acts on the stops. So this holds of runs that start no thread and read no clock, which goes
on with each stop, and that do not ask the machine to end, which a host hears of between
slices only.
-/

namespace Jvm

open Machine

namespace Machine

/-- Whether an execution is all that waits to be driven, by a host that does not debug yet. -/
structure Prepared (machine : Machine) (exec : Execution) : Prop where
  parked : machine.parked = [exec]
  running : exec.isIdle = false
  awake : exec.wakeAt = none
  clear : exec.pendingException = none
  unmarked : exec.skipBreakpoint = none
  uncompleted : ∀ entry ∈ machine.completed, entry.1 ≠ exec.id
  detached : machine.debuggerAttached = false
  clean : machine.breakpoints = []

/-- The machine in which an execution runs that the running one waits for. -/
def toFront (machine : Machine) (exec : Execution) : Machine :=
  { machine with exec, parked := [machine.exec] }

theorem Prepared.parkBehind {machine : Machine} {exec : Execution}
    (prepared : machine.Prepared exec) :
    (machine.toFront exec).parkBehind machine.exec = machine := by
  rw [Machine.parkBehind, toFront, ← prepared.parked]

/-- Whether two machines are the same for their host and their program, but for breakpoints
in the code of the first one: they have the same objects, the same classes with the same
static fields, and the same output. What is kept for the running instruction may differ. -/
structure Resembles (breakpoints : Breakpoints) (debugged plain : Machine) : Prop where
  heap : debugged.heap.clearPending = plain.heap.clearPending
  interned : debugged.interned = plain.interned
  registry : debugged.registry = plain.registry.recode breakpoints.stamping
  exec : debugged.exec = plain.exec
  parked : debugged.parked = plain.parked
  completed : debugged.completed = plain.completed
  output : debugged.output = plain.output
  errorOutput : debugged.errorOutput = plain.errorOutput
  terminated : debugged.terminated = plain.terminated

/-- Breakpoints that stand where they stood before the bytes were restored. -/
theorem stamp_restore (breakpoints : Breakpoints) (registry : Registry) :
    (registry.recode breakpoints.restoring).recode breakpoints.stamping =
      registry.recode breakpoints.stamping := by
  have table : (registry.toClassTable.recode breakpoints.restoring).recode breakpoints.stamping =
      registry.toClassTable.recode breakpoints.stamping := by
    rw [ClassTable.recode_recode]
    refine congrArg (fun recoding => registry.toClassTable.recode recoding) ?_
    funext cls method bytes
    refine Array.ext_getElem? fun place => ?_
    rw [Breakpoints.getElem?_stamping, Breakpoints.getElem?_restoring,
      Breakpoints.getElem?_stamping, Option.map_map]
    refine congrArg (fun change => bytes[place]?.map change) ?_
    funext byte
    simp only [Function.comp_apply]
    cases breakpoints.byteAt? cls method place <;> rfl
  simp only [Registry.recode, Registry.withTable, table]

/-- What is left when a debugged execution and the plain one have ended. -/
theorem Agrees.resembles {breakpoints : Breakpoints} {debugged plain : Machine}
    (agrees : Agrees breakpoints debugged plain) (other : Execution) :
    Resembles breakpoints (debugged.dropFor other) (plain.dropFor other) := by
  obtain ⟨veil, undebugs, same⟩ := agrees.veiled
  have view {α : Type} (part : Machine → α) :
      part (debugged.unprotected.veil veil) = part plain.unprotected := congrArg part same
  refine ⟨Shadows.heap_eq agrees, view Machine.interned, ?_, rfl, rfl, view Machine.completed,
    view Machine.output, view Machine.errorOutput, view Machine.terminated⟩
  have restored : debugged.registry.recode breakpoints.restoring = plain.registry := by
    rw [← undebugs.recoding]
    exact view Machine.registry
  change debugged.registry = plain.registry.recode breakpoints.stamping
  rw [← restored, stamp_restore]
  exact agrees.stamped.symm

/-- A plain machine is the shadow of one that is debugged. -/
theorem shadows_withDebugger (plain : Machine) {breakpoints : Breakpoints}
    (holds : breakpoints.Of plain.registry.toClassTable) (detached : plain.debuggerAttached = false)
    (clean : plain.breakpoints = []) (unmarked : plain.exec.skipBreakpoint = none)
    (clear : plain.exec.pendingException = none) (debugger : Debugger) (attached : Bool) :
    Shadows breakpoints (plain.withDebugger debugger attached breakpoints) plain := by
  have size : (plain.withDebugger debugger attached breakpoints).registry.size =
      plain.registry.size := ClassTable.size_recode ..
  have restored : (plain.registry.recode breakpoints.stamping).recode breakpoints.restoring =
      plain.registry := by
    have table := holds.restore_stamp
    simp only [Registry.recode, Registry.withTable, table]
  have stamped : (plain.registry.recode breakpoints.stamping).recode breakpoints.stamping =
      plain.registry.recode breakpoints.stamping := by
    have table := breakpoints.stamp_stamp plain.registry.toClassTable
    simp only [Registry.recode, Registry.withTable, table]
  have veiled : (plain.withDebugger debugger attached breakpoints).veil
      { Veil.of plain True with recoding := breakpoints.restoring, skips := fun _ => none } =
        plain := by
    have exec : plain.exec.veil
        { Veil.of plain True with recoding := breakpoints.restoring, skips := fun _ => none } =
          plain.exec := by
      simp only [Execution.veil, Veil.of, Option.map_id, id_eq, unmarked, Option.bind_none]
      rw [← unmarked]
    simp only [veil, withDebugger, exec, restored]
    simp only [Veil.of]
  refine ⟨⟨_, ⟨rfl, rfl, detached, clean⟩, veiled⟩, ?_, ?_, rfl, stamped, clear, rfl⟩
  · rw [size]
    exact holds.endsAt_restoring
  · rw [size]
    exact holds.endsAt_stamping

end Machine

namespace Host

/-- A host that debugs a prepared execution starts beside one that does not. -/
theorem beside_of_prepared {reentry : Reentry} {plain debugged : Machine} {exec : Execution}
    (prepared : plain.Prepared exec) (debugs : Debugs plain debugged)
    (peaceful : Peaceful reentry debugged.breakpoints (beginSlice (plain.toFront exec))) :
    debugged.exec = plain.exec ∧ debugged.parked = [exec] ∧
      Beside reentry debugged.breakpoints
        (plain.config, exec.id, [plain.exec], plain.completed) (debugged.toFront exec)
        (plain.toFront exec) := by
  obtain ⟨holds, same⟩ := debugs.eq_withDebugger prepared.clean
  generalize debugged.debugger = debugger at same
  generalize debugged.debuggerAttached = attached at same
  generalize debugged.breakpoints = breakpoints at holds same peaceful ⊢
  subst same
  have shadows : Shadows breakpoints
      ((plain.toFront exec).withDebugger debugger attached breakpoints) (plain.toFront exec) :=
    (plain.toFront exec).shadows_withDebugger holds prepared.detached prepared.clean
      prepared.unmarked prepared.clear debugger attached
  have due : ∀ machine : Machine, machine.exec = exec → Due machine := by
    rintro machine rfl
    exact ⟨prepared.running, by rw [prepared.awake]; rfl⟩
  exact ⟨rfl, prepared.parked, .of_agrees shadows.agrees (due _ rfl) (due _ rfl) rfl peaceful⟩

/-- Breakpoints are transparent: whatever a host asks for at the stops, an execution that it
debugs ends as the plain one does and leaves what that one leaves, and where the plain one
ends so does the debugged one. -/
theorem breakpoints_transparent (bounds : Bounds) {plain debugged : Machine} {exec : Execution}
    (prepared : plain.Prepared exec) (debugs : Debugs plain debugged)
    (peaceful : Peaceful bounds.reentry debugged.breakpoints (beginSlice (plain.toFront exec)))
    (commands : Nat → Command) :
    (∀ ended after, Drives (slice bounds exec.id) commands debugged ended after →
      ∃ left, (∀ unused, Drives (slice bounds exec.id) unused plain ended left) ∧
        Resembles debugged.breakpoints after left) ∧
    ∀ unused ended left, Drives (slice bounds exec.id) unused plain ended left →
      ∃ after, Drives (slice bounds exec.id) commands debugged ended after ∧
        Resembles debugged.breakpoints after left := by
  have refuses := bounds.refuses_reentry
  obtain ⟨same, parked, beside⟩ := beside_of_prepared prepared debugs peaceful
  let setting := (plain.config, exec.id, [plain.exec], plain.completed)
  have stays (breakpoints : Breakpoints) : Stays bounds.reentry
      (fun machine => ∃ left, Beside bounds.reentry breakpoints setting machine left)
      plain.exec exec.id plain.config.sliceBudget :=
    stays_beside refuses prepared.uncompleted rfl
  have behind : (debugged.toFront exec).parkBehind plain.exec = debugged := by
    rw [Machine.parkBehind, toFront, ← same, ← parked]
  have driven {commands ended after} : Drives (slice bounds exec.id) commands _ ended after ↔ _ :=
    (stays debugged.breakpoints).drives_parked_iff ⟨_, beside⟩
  have drivenPlain {commands ended left} : Drives (slice bounds exec.id) commands _ ended left ↔ _ :=
    (stays []).drives_parked_iff ⟨_, beside.plainly⟩
  rw [behind] at driven
  rw [prepared.parkBehind] at drivenPlain
  constructor
  · intro ended after drives
    obtain ⟨positive, last, singly, rfl⟩ := driven.mp drives
    obtain ⟨left, plainly, agrees⟩ := plain_of_drives refuses singly beside
    exact ⟨_, fun unused => drivenPlain.mpr ⟨positive, left, plainly unused, rfl⟩,
      agrees.resembles plain.exec⟩
  · intro unused ended left drives
    obtain ⟨positive, last, singly, rfl⟩ := drivenPlain.mp drives
    obtain ⟨after, debugs, agrees⟩ := drives_of_plain refuses singly beside commands
    exact ⟨_, driven.mpr ⟨positive, after, debugs, rfl⟩, agrees.resembles plain.exec⟩

/-! ## A call of a native -/

/-- The machine that is left, with a value or an error. -/
def leftBy {α : Type} : EStateM.Result Error Machine α → Machine
  | .ok _ after | .error _ after => after

/-- Whether a value is answered. -/
def Answers {α : Type} (value : α) (result : EStateM.Result Error Machine α) : Prop :=
  result = .ok value (leftBy result)

instance {α : Type} [DecidableEq α] (value : α) (result : EStateM.Result Error Machine α) :
    Decidable (Answers value result) :=
  match result with
  | .ok answer _ =>
    decidable_of_iff (answer = value) ⟨fun same => same ▸ rfl, fun same => by cases same; rfl⟩
  | .error _ _ => .isFalse nofun

/-- A method that calls a native one and returns what it answers. -/
structure NativeCall where
  native : Native
  descriptor : String
  result : Option Kind
  last : UInt8

namespace NativeCall

/-- The method that makes the call. -/
abbrev caller : MethodId := ⟨⟨0⟩, 1⟩

abbrev code (call : NativeCall) : Array UInt8 := #[Opcode.invokeStatic.byte, 0, 1, call.last]

/-- The class of the native method and of its caller. -/
def cls (call : NativeCall) : Class :=
  let method : Method :=
    { nullary call.code with descriptor := call.descriptor, ret := call.result }
  let callee : Method :=
    { method with
      name := "g", flags := Access.isStatic ||| Access.isNative, code := none
      native := some call.native }
  { classOf [callee, method] with
    pool := ⟨#[.empty, .resolvedMethod ⟨⟨⟨0⟩, 0⟩, 0, true⟩]⟩
    initState := .initialized }

/-- The execution that is prepared for the call. -/
def exec (call : NativeCall) : Execution :=
  (Execution.idle 2 64).enter (nullary call.code) caller 0 0

def machine (call : NativeCall) : Machine where
  config := {}
  registry := { classes := #[call.cls], byName := Std.HashMap.emptyWithCapacity.insert "F" ⟨0⟩ }
  known := default
  heap := Heap.ofConfig {}
  exec := Execution.idle Execution.mainId 64
  parked := [call.exec]
  nextExec := 3

/-- The same machine with a breakpoint in the place of a byte. -/
def broken (call : NativeCall) (pc : UInt32) (byte : UInt8) : Machine :=
  { call.machine.attachDebugger.patch caller pc Opcode.breakpoint.byte with
    breakpoints := [((caller, pc), byte)] }

/-- The machine in which the call is about to run. -/
abbrev before (call : NativeCall) : Machine := beginSlice (call.machine.toFront call.exec)

/-- The machine in which its caller is about to return. -/
def after (call : NativeCall) : Machine := leftBy (runStep (Bounds.reentry {}) call.before)

variable (call : NativeCall)

theorem prepared : call.machine.Prepared call.exec :=
  ⟨rfl, rfl, rfl, rfl, rfl, nofun, rfl, rfl⟩

theorem debugs {pc : UInt32} {byte : UInt8} (there : call.code[pc.toNat]? = some byte) :
    Debugs call.machine (call.broken pc byte) := by
  have found : call.machine.registry.find? "F" = some ⟨0⟩ := Std.HashMap.getElem?_insert_self
  have loads {machine : Machine} (same : machine.registry = call.machine.registry) :
      load "F" machine = .ok ⟨0⟩ machine := by
    simp only [load, linking, same, Registry.load_eq_of_find? found]
    rw [← same]
  have declared : (call.machine.attachDebugger.cls ⟨0⟩).declaredMethod? "f" call.descriptor =
      some caller := by
    change (call.cls.methods.findIdx? fun method =>
      method.name == "f" && method.descriptor == call.descriptor).map (fun index =>
        (⟨⟨0⟩, UInt16.ofNat index⟩ : MethodId)) = _
    simp [cls, classOf, nullary, List.findIdx?_cons]
  have finds : findCode "F" "f" call.descriptor call.machine.attachDebugger =
      .ok caller call.machine.attachDebugger := by
    have loaded : load "F" call.machine.attachDebugger = .ok ⟨0⟩ _ := loads rfl
    refine (bind_of_ok loaded).trans ?_
    simp only [bind, EStateM.bind, run_get, declared]
    rfl
  have set : setBreakpoint "F" "f" call.descriptor pc call.machine.attachDebugger =
      .ok caller (call.broken pc byte) := by
    refine (bind_of_ok finds).trans ?_
    have byteThere : ((call.machine.attachDebugger.method caller).code.bind
      fun code => code.bytecode[pc.toNat]?) = some byte := there
    simp only [bind, EStateM.bind, run_get]
    rw [byteThere]
    rfl
  exact .breaks (.attaches (.plain _)) (loads rfl) set

section

variable {machine : Machine} {reentry : Reentry} {pc : UInt32} {byte : UInt8}
  (current : machine.exec.method = some caller) (code : machine.bytecode caller = call.code)

include current code

theorem unread_call (first : machine.exec.pc = 0) (apart : pc ≠ 1 ∧ pc ≠ 2) :
    Guest.Unread reentry [((caller, pc), byte)] machine := by
  have there : (machine.bytecode caller)[machine.exec.pc.toNat]? = some 0xB8 := by
    rw [code, first]
    rfl
  have spared {other : Array UInt8} {place : Nat} {read : UInt8}
      (spares : Breakpoints.Spares [((caller, pc), byte)] caller (machine.bytecode caller) other)
      (stands : call.code[place]? = some read) (elsewhere : pc.toNat ≠ place) :
      other[place]? = some read := by
    rw [spares place, code, stands]
    rw [Breakpoints.byteAt?_cons, if_neg fun all => elsewhere all.2.2]
    rfl
  have known : Opcode.ofByte 0xB8 = some .invokeStatic := by decide +kernel
  have decodes : ∀ {other : Array UInt8},
      Breakpoints.Spares [((caller, pc), byte)] caller (machine.bytecode caller) other →
        Instr.decode other machine.exec.pc .invokeStatic = .ok (.invokeStatic 1, 3) := by
    intro other spares
    have high : other[1]? = some 0 :=
      spared spares rfl fun same => apart.1 (UInt32.toNat_inj.mp same)
    have low : other[2]? = some 1 :=
      spared spares rfl fun same => apart.2 (UInt32.toNat_inj.mp same)
    have short : Bytecode.short other (0 + 1) = .ok 1 := by
      simp only [Bytecode.short]
      rw [show (0 + 1 : UInt32).toNat = 1 from rfl, high, low]
      rfl
    rw [first]
    simp only [Instr.decode, Instr.withShort, short]
    rfl
  exact Guest.unread_of_decode current there known decodes fun _ _ => rfl

theorem unread_leave {opcode : Opcode} {kind : Option Kind} (second : machine.exec.pc = 3)
    (known : Opcode.ofByte call.last = some opcode)
    (leaves : ∀ other : Array UInt8, Instr.decode other 3 opcode = .ok (.leave kind, 4)) :
    Guest.Unread reentry [((caller, pc), byte)] machine := by
  have there : (machine.bytecode caller)[machine.exec.pc.toNat]? = some call.last := by
    rw [code, second]
    rfl
  refine Guest.unread_of_decode current there known (fun _ => second ▸ leaves _) fun _ _ => ?_
  cases kind <;> rfl

end

/-- A call of a native that does nothing. -/
def idling : NativeCall := ⟨.host fun _ => .finish .void, "()V", none, 0xB1⟩

/-- A call of a native that asks the machine to end. -/
def ending : NativeCall := ⟨.host fun _ => .terminate (.finish .void), "()V", none, 0xB1⟩

/-- A call of a native that answers the time. -/
def timing : NativeCall := ⟨.builtin (.system .nanoTime), "()J", some .long, 0xAD⟩

/-- Where the call and the return end the run nothing else is visited. -/
theorem forall_visited {property : Machine → Prop} {value : Value} {last : Machine}
    (finishes : runSteps (Bounds.reentry {}) 2 call.before = .ok (.finished value) last)
    (both : visits (Bounds.reentry {}) 2 call.before = [call.before, call.after])
    (atCall : property call.before) (atReturn : property call.after) :
    ∀ visited, Relation.ReflTransGen (Passes (Bounds.reentry {})) call.before visited →
      property visited := by
  intro visited reaches
  have member := mem_visits_of_finishes finishes reaches
  rw [both, List.mem_pair] at member
  obtain same | same := member <;> rw [same]
  · exact atCall
  · exact atReturn

theorem unread_before {pc : UInt32} {byte : UInt8} (apart : pc ≠ 1 ∧ pc ≠ 2) :
    Guest.Unread (Bounds.reentry {}) [((caller, pc), byte)] call.before.unprotected :=
  unread_call call rfl rfl rfl apart

/-- What an instruction finds to call is what the machine calls. -/
theorem callsOnly_of_finds {admitted : Native → Prop} {machine left : Machine}
    {found : Option Native}
    (finds : Guest.calledNext (machine.modifyHeap Heap.clearPending) = .ok found left)
    (admits : ∀ native, found = some native → admitted native) : machine.CallsOnly admitted :=
  fun _ => Ends.of_ok finds admits

end NativeCall

open NativeCall

set_option maxRecDepth 20000 in
theorem peaceful_idling :
    Peaceful (Bounds.reentry {}) (idling.broken 3 0xB1).breakpoints idling.before := by
  have finishes : Answers (.finished .void) (runSteps (Bounds.reentry {}) 2 idling.before) := by
    decide +kernel
  have calls : Guest.step (Bounds.reentry {}) idling.before.unprotected = .ok .next _ := rfl
  have returns : Guest.step (Bounds.reentry {}) idling.after.unprotected =
      .ok (.returned .void) _ := rfl
  have finds : Guest.calledNext (idling.before.modifyHeap Heap.clearPending) =
      .ok (some idling.native) _ := rfl
  have findsNone : Guest.calledNext (idling.after.modifyHeap Heap.clearPending) = .ok none _ := rfl
  have known : Opcode.ofByte 0xB1 = some .returnVoid := by decide +kernel
  refine idling.forall_visited finishes rfl
    ⟨rfl, fun raised => ?_, callsOnly_of_finds finds ?_, idling.unread_before (by decide)⟩
    ⟨rfl, fun raised => ?_, callsOnly_of_finds findsNone nofun,
      unread_leave idling rfl rfl rfl known fun _ => rfl⟩
  · cases calls.symm.trans raised
  · rintro _ ⟨⟩
    rfl
  · cases returns.symm.trans raised

set_option maxRecDepth 20000 in
/-- A call of a native that does nothing ends the same with a breakpoint behind it. -/
theorem breakpoints_transparent_call :
    idling.machine.Prepared idling.exec ∧ Debugs idling.machine (idling.broken 3 0xB1) ∧
      Peaceful (Bounds.reentry {}) (idling.broken 3 0xB1).breakpoints idling.before ∧
      ∃ after, Drives (slice {} 2) (fun _ => .resume) (idling.broken 3 0xB1) (.ok .void) after := by
  have prepared := idling.prepared
  have debugs : Debugs idling.machine (idling.broken 3 0xB1) := idling.debugs rfl
  have finishes : Answers (.finished .void) (slice {} 2 idling.machine) := by decide +kernel
  obtain ⟨after, drives, -⟩ :=
    (breakpoints_transparent {} prepared debugs peaceful_idling fun _ => .resume).2
      (fun _ => .resume) _ _ (.finishes finishes)
  exact ⟨prepared, debugs, peaceful_idling, after, drives⟩

/-! ## Stops that are seen -/

/-- Whether breakpoints are transparent to every run whose instructions read none of them and
have a property. -/
def TransparentFor (property : Reentry → Machine → Prop) : Prop :=
  ∀ (bounds : Bounds) (plain debugged : Machine) (exec : Execution) (commands : Nat → Command)
    (ended : Except Error Value) (after : Machine),
    plain.Prepared exec → Debugs plain debugged →
      (∀ visited, Relation.ReflTransGen (Passes bounds.reentry) (beginSlice (plain.toFront exec))
          visited →
        Guest.Unread bounds.reentry debugged.breakpoints visited.unprotected ∧
          property bounds.reentry visited) →
        Drives (slice bounds exec.id) commands debugged ended after →
          ∃ unused left, Drives (slice bounds exec.id) unused plain ended left ∧
            Resembles debugged.breakpoints after left

/-- Where two runs of a call end in different ways, breakpoints are not transparent to it. -/
theorem NativeCall.not_transparentFor {call : NativeCall} {pc : UInt32} {byte : UInt8}
    {value : Value} {last after : Machine} {ended : Except Error Value}
    {property : Reentry → Machine → Prop}
    (there : call.code[pc.toNat]? = some byte)
    (peaceful : ∀ visited, Relation.ReflTransGen (Passes (Bounds.reentry {})) call.before visited →
      Guest.Unread (Bounds.reentry {}) [((caller, pc), byte)] visited.unprotected ∧
        property (Bounds.reentry {}) visited)
    (finishes : slice {} 2 call.machine = .ok (.finished value) last)
    (drives : Drives (slice {} 2) (fun _ => .resume) (call.broken pc byte) ended after)
    (differs : ended ≠ .ok value) : ¬TransparentFor property := by
  intro transparent
  have own : call.exec.id = 2 := rfl
  rw [← own] at finishes drives
  have recorded : (call.broken pc byte).breakpoints = [((caller, pc), byte)] := rfl
  rw [← recorded] at peaceful
  obtain ⟨unused, left, plainly, -⟩ := transparent {} call.machine (call.broken pc byte) call.exec
    _ _ _ call.prepared (call.debugs there) peaceful drives
  cases plainly with
  | finishes ran =>
      cases finishes.symm.trans ran
      exact differs rfl
  | fails ran => cases finishes.symm.trans ran
  | goesOn ran unfinished =>
      cases finishes.symm.trans ran
      exact unfinished _ rfl

set_option maxRecDepth 20000 in
/-- A stop lets the host see that the machine is asked to end, and it takes time. -/
theorem stops_are_seen :
    ¬TransparentFor (fun _ machine => machine.CallsOnly (·.isTimeless)) ∧
      ¬TransparentFor fun reentry machine => machine.terminated = false ∧
        ∀ ref after, Guest.step reentry machine.unprotected = .error (.exception ref) after →
          after.terminated = false := by
  constructor
  · have finishes : Answers (.finished .void) (runSteps (Bounds.reentry {}) 2 ending.before) := by
      decide +kernel
    have plainly : Answers (.finished .void) (slice {} 2 ending.machine) := by decide +kernel
    have stops : Answers .suspended (slice {} 2 (ending.broken 3 0xB1)) := by decide +kernel
    have notices (debugger : Debugger) :
        slice {} 2 { leftBy (slice {} 2 (ending.broken 3 0xB1)) with debugger } =
          .error .terminated _ := rfl
    have finds : Guest.calledNext (ending.before.modifyHeap Heap.clearPending) =
        .ok (some ending.native) _ := rfl
    have findsNone : Guest.calledNext (ending.after.modifyHeap Heap.clearPending) =
        .ok none _ := rfl
    have known : Opcode.ofByte 0xB1 = some .returnVoid := by decide +kernel
    refine not_transparentFor rfl (ending.forall_visited finishes rfl
      ⟨ending.unread_before (by decide), callsOnly_of_finds finds ?_⟩
      ⟨unread_leave ending rfl rfl rfl known fun _ => rfl, callsOnly_of_finds findsNone nofun⟩)
      plainly (.goesOn stops nofun (.fails (notices _))) nofun
    rintro _ ⟨⟩
    rfl
  · have finishes : Answers (.finished (.long 0))
        (runSteps (Bounds.reentry {}) 2 timing.before) := by decide +kernel
    have plainly : Answers (.finished (.long 0)) (slice {} 2 timing.machine) := by decide +kernel
    have stops : Answers .suspended (slice {} 2 (timing.broken 0 0xB8)) := by decide +kernel
    have later : Answers (.finished (.long 50)) (slice {} 2 (attend (fun _ => .resume) .suspended
        (leftBy (slice {} 2 (timing.broken 0 0xB8)))).2) := by decide +kernel
    have calls : Guest.step (Bounds.reentry {}) timing.before.unprotected = .ok .next _ := rfl
    have returns : Guest.step (Bounds.reentry {}) timing.after.unprotected =
        .ok (.returned (.long 0)) _ := rfl
    have known : Opcode.ofByte 0xAD = some .lReturn := by decide +kernel
    refine not_transparentFor rfl (timing.forall_visited finishes rfl
      ⟨timing.unread_before (by decide), rfl, fun ref after raised => ?_⟩
      ⟨unread_leave timing rfl rfl rfl known fun _ => rfl, rfl, fun ref after raised => ?_⟩)
      plainly (.goesOn stops nofun (.finishes later)) (by decide)
    · cases calls.symm.trans raised
    · cases returns.symm.trans raised

end Host

end Jvm
