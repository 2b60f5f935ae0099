import Jvm.Machine.Step
import Jvm.Proofs.Machine.Overlooking
import Jvm.Proofs.Registry.Recoding

/-!
# What guest code does not see of its machine

Settings, the count of instructions, the debugger with its breakpoints, the list of threads
to schedule and the bytes of the code that is not running are there for whoever drives the
machine. A veil puts something else in their place. Guest code that cannot look behind it
does the same on either side, and it leaves what is veiled as it is.
-/

namespace Jvm

/-- What stands in the place of what guest code does not see, and what is taken for granted of
the machines that are veiled. -/
structure Veil where
  config : Config
  executed : Nat
  slept : Nat
  nextExec : ExecId
  guestThreads : List ExecId
  debugger : Debugger
  debuggerAttached : Bool
  breakpoints : List ((MethodId × UInt32) × UInt8)
  recoding : Recoding
  /-- The instant that a sleeping execution waits for, by the one that it waits for. -/
  delay : Instant → Instant
  /-- The mark of an instruction to run without a stop, by the mark that there is. -/
  skips : MethodId × UInt32 → Option (MethodId × UInt32)
  /-- The id of the running execution. -/
  exec : ExecId
  /-- The executions that wait. -/
  parked : List Execution
  /-- The results that wait. -/
  completed : List (ExecId × Value)
  /-- Whether the clock shows the same behind the veil. -/
  clocked : Prop
  /-- Whether no end of the slice is asked for. -/
  steady : Prop
  /-- Whether no exception is kept back. -/
  clear : Prop
  /-- Whether the running execution has a frame. -/
  busy : Prop

/-- Whether a machine is one that a veil is meant for. -/
def Veil.Covers (veil : Veil) (machine : Machine) : Prop :=
  veil.recoding.EndsAt machine.registry.size ∧ machine.exec.id = veil.exec ∧
    machine.parked = veil.parked ∧ machine.completed = veil.completed ∧
    ((veil.clocked → machine.clock.elapsed veil.executed + veil.slept = machine.now ∧
        machine.clock.calendar veil.executed veil.slept =
          machine.clock.calendar machine.executed machine.slept) ∧
      ∀ pause, veil.delay (machine.now + pause) =
        machine.clock.elapsed veil.executed + veil.slept + pause) ∧
    (veil.steady → machine.yieldRequested = false ∧ machine.exec.wakeAt = none) ∧
    (veil.clear → machine.exec.pendingException = none) ∧
    (veil.busy → machine.exec.isIdle = false)

namespace Veil

/-- The same veil, before executions that have a frame. -/
def inFrame (veil : Veil) : Veil := { veil with busy := True }

theorem Covers.inFrame {veil : Veil} {machine : Machine} (covers : veil.Covers machine)
    (running : machine.exec.isIdle = false) : veil.inFrame.Covers machine := by
  obtain ⟨ends, id, parked, completed, clock, steady, clear, -⟩ := covers
  exact ⟨ends, id, parked, completed, clock, steady, clear, fun _ => running⟩

theorem Covers.outOfFrame {veil : Veil} {machine : Machine} (covers : veil.inFrame.Covers machine)
    (free : ¬veil.busy) : veil.Covers machine := by
  obtain ⟨ends, id, parked, completed, clock, steady, clear, -⟩ := covers
  exact ⟨ends, id, parked, completed, clock, steady, clear, fun busy => (free busy).elim⟩

theorem Covers.running {veil : Veil} {machine : Machine} (covers : veil.Covers machine)
    (busy : veil.busy) : machine.exec.isIdle = false :=
  covers.2.2.2.2.2.2.2 busy

end Veil

/-- An execution behind a veil. -/
def Execution.veil (veil : Veil) (exec : Execution) : Execution :=
  { exec with
    wakeAt := exec.wakeAt.map veil.delay
    skipBreakpoint := exec.skipBreakpoint.bind veil.skips }

namespace Machine

/-- A machine behind a veil. -/
def veil (veil : Veil) (machine : Machine) : Machine :=
  { machine with
    exec := machine.exec.veil veil
    config := veil.config, executed := veil.executed, slept := veil.slept
    nextExec := veil.nextExec, guestThreads := veil.guestThreads, debugger := veil.debugger
    debuggerAttached := veil.debuggerAttached, breakpoints := veil.breakpoints
    registry := machine.registry.recode veil.recoding }

/-- Whether a step does the same behind a veil. -/
abbrev Blind (veil : Veil) {ε α : Type} (step : EStateM ε Machine α) : Prop :=
  Overlooks veil.Covers (Machine.veil veil) step

/-- Whether a step from one machine does the same behind a veil. -/
def BlindAt (veil : Veil) {ε α : Type} (step : EStateM ε Machine α) (machine : Machine) : Prop :=
  Ends step machine
    (fun value after => veil.Covers after ∧
      step (machine.veil veil) = .ok value (after.veil veil))
    fun raised after => veil.Covers after ∧
      step (machine.veil veil) = .error raised (after.veil veil)

namespace BlindAt

variable {veil : Veil} {ε α β : Type} {machine : Machine}

/-- What is done behind a veil is followed by what comes next. -/
protected theorem bind {step : EStateM ε Machine β} {next : β → EStateM ε Machine α}
    (first : BlindAt veil step machine)
    (rest : ∀ value after, veil.Covers after → step machine = .ok value after →
      BlindAt veil (next value) after) : BlindAt veil (step >>= next) machine := by
  simp only [BlindAt, Ends] at first rest ⊢
  cases ran : step machine with
  | ok value middle =>
      rw [ran] at first
      have later := rest value middle first.1 ran
      simp only [bind, EStateM.bind, ran, first.2]
      exact later
  | error raised after =>
      rw [ran] at first
      simp only [bind, EStateM.bind, ran, first.2]
      exact ⟨first.1, trivial⟩

theorem of_blind {step : EStateM ε Machine α} (blind : Blind veil step)
    (covers : veil.Covers machine) : BlindAt veil step machine :=
  blind machine covers

/-- What is done while there is a frame is done the same whether that is known or not. -/
theorem outOfFrame {step : EStateM ε Machine α} (blind : BlindAt veil.inFrame step machine)
    (free : ¬veil.busy) : BlindAt veil step machine :=
  Ends.mono blind (fun _ _ ended => ⟨ended.1.outOfFrame free, ended.2⟩)
    fun _ _ ended => ⟨ended.1.outOfFrame free, ended.2⟩

/-- A machine is looked at. -/
theorem get_bind {next : Machine → EStateM ε Machine α}
    (blind : next (machine.veil veil) = next machine) (rest : BlindAt veil (next machine) machine) :
    BlindAt veil (get >>= next) machine := by
  simp only [BlindAt, Ends, bind, EStateM.bind, run_get, blind]
    at rest ⊢
  exact rest

end BlindAt

variable {veil : Veil} (machine : Machine)

theorem toClassTable_veil : (machine.veil veil).registry.toClassTable =
    machine.registry.toClassTable.recode veil.recoding := rfl

theorem cls_veil (id : ClassId) :
    (machine.veil veil).cls id = (machine.cls id).recode (veil.recoding id.index) :=
  machine.registry.toClassTable.get_recode veil.recoding id

theorem method_veil (id : MethodId) : (machine.veil veil).method id =
    (machine.method id).recode (veil.recoding id.owner.index id.index.toNat) :=
  machine.registry.toClassTable.method_recode veil.recoding id

/-- A class shows the same in all that is no code. -/
theorem view_veil {α : Type} (view : Class → α)
    (blind : ∀ (cls : Class) codes, view (cls.recode codes) = view cls) (id : ClassId) :
    view ((machine.veil veil).cls id) = view (machine.cls id) := by
  rw [cls_veil, blind]

theorem methodLabel_veil (id : MethodId) :
    (machine.veil veil).methodLabel id = machine.methodLabel id :=
  machine.registry.toClassTable.methodLabel_recode veil.recoding id

theorem displayName_veil (id : ClassId) :
    (machine.veil veil).displayName id = machine.displayName id :=
  machine.registry.toClassTable.displayName_recode veil.recoding id

theorem isAssignable_veil (source target : ClassId) :
    (machine.veil veil).registry.isAssignable source target =
      machine.registry.isAssignable source target :=
  machine.registry.toClassTable.isAssignable_recode veil.recoding source target

theorem fieldName_veil (field : ResolvedField) :
    (machine.veil veil).fieldName field = machine.fieldName field := by
  rw [fieldName, fieldName, cls_veil]
  rfl

theorem fieldLabel_veil (field : ResolvedField) :
    (machine.veil veil).fieldLabel field = machine.fieldLabel field := by
  rw [fieldLabel, fieldLabel, displayName_veil, fieldName_veil]

theorem mirrored?_veil (ref : Ref) :
    (machine.veil veil).mirrored? ref = machine.mirrored? ref := by
  have mirrors : ∀ id, (((machine.veil veil).registry.class? id).bind fun cls =>
      if cls.mirror = some ref then some cls.id else none) =
        (machine.registry.class? id).bind fun cls =>
          if cls.mirror = some ref then some cls.id else none := by
    intro id
    rw [toClassTable_veil, ClassTable.class?_recode]
    cases machine.registry.class? id <;> rfl
  simp only [mirrored?, bind, mirrors]
  rfl

theorem unnoticed_veil (veil : Veil) : Unnoticed veil.Covers (Machine.veil veil) where
  held _ := rfl
  parked _ := rfl
  completed _ := rfl
  heap _ := rfl
  interned _ := rfl
  outOfMemory _ := rfl
  known _ := rfl
  size machine := machine.registry.toClassTable.size_recode veil.recoding
  classes machine id := ⟨_, _, machine.cls_veil id⟩
  contents _ _ _ covers := ⟨covers, rfl⟩

theorem exec_veil : (machine.veil veil).exec = machine.exec.veil veil := rfl

/-- Every execution shows the same in all that is not veiled of the running one. -/
theorem execution?_veil {α : Type} {view : Execution → α}
    (blind : ∀ exec : Execution, view (exec.veil veil) = view exec) (id : ExecId) :
    ((machine.veil veil).execution? id).map view = (machine.execution? id).map view := by
  rw [execution?, execution?, exec_veil, show (machine.exec.veil veil).id = machine.exec.id from rfl]
  split
  · exact congrArg some (blind _)
  · rfl

theorem modifyHeap_veil (change : Heap → Heap) :
    (machine.veil veil).modifyHeap change = (machine.modifyHeap change).veil veil := rfl

theorem modifyExec_veil {change : Execution → Execution}
    (blind : change (machine.exec.veil veil) = (change machine.exec).veil veil) :
    (machine.veil veil).modifyExec change = (machine.modifyExec change).veil veil := by
  rw [modifyExec, exec_veil, blind]
  rfl

/-- A change of a class that does not depend on code goes with the veil. -/
theorem modifyClass_veil (id : ClassId) {change : Class → Class}
    (blind : ∀ (cls : Class) codes, change (cls.recode codes) = (change cls).recode codes) :
    (machine.veil veil).modifyClass id change = (machine.modifyClass id change).veil veil := by
  have tables := machine.registry.toClassTable.modify_recode veil.recoding id blind
  simp only [modifyClass, modifyTable, Machine.veil, Registry.recode, Registry.withTable, tables]

theorem covers_modifyClass {machine : Machine} (covers : veil.Covers machine) (id : ClassId)
    (change : Class → Class) : veil.Covers (machine.modifyClass id change) := by
  obtain ⟨ends, rest⟩ := covers
  refine ⟨?_, rest⟩
  rw [show (machine.modifyClass id change).registry.size = machine.registry.size from
    ClassTable.size_modify ..]
  exact ends

/-- Classes that are linked are linked beside the veil. -/
theorem linking_veil {machine : Machine} (covers : veil.Covers machine) {α : Type}
    {steps : ClassPath → Linking α}
    (overlooks : ∀ {meant change}, ClassTable.Unnoticed meant change →
      Overlooks meant change (steps machine.registry.path)) :
    veil.Covers { machine with registry := (machine.registry.link steps).2 } ∧
      (machine.veil veil).registry.link steps =
        ((machine.registry.link steps).1, (machine.registry.link steps).2.recode veil.recoding) := by
  obtain ⟨ends, rest⟩ := covers
  obtain ⟨kept, same⟩ := machine.registry.link_withTable
    (overlooks (ClassTable.unnoticed_recode veil.recoding)) ends
  exact ⟨⟨kept, rest⟩, same⟩

end Machine

open Machine

namespace Guest

variable {veil : Veil} {α : Type}

/-! ## Changes -/

theorem blind_fatal (error : Error) : Blind veil (fatal error : Guest α) := .throw _

theorem blind_fault (stateFault : StateFault) : Blind veil (Guest.fault stateFault : Guest α) :=
  .throw _

theorem blind_require (value : Option α) (missing : StateFault) :
    Blind veil (require value missing) := by
  cases value with
  | some value => exact .pure _
  | none => exact .throw _

theorem blind_ofLoad (loaded : Except LoadError α) : Blind veil (ofLoad loaded) := by
  cases loaded with
  | ok value => exact .pure _
  | error error => exact .throw _

/-- The running execution changes, but neither its id nor whether it has a frame, keeps an
exception back or sleeps. -/
theorem blind_modifyExec {change : Execution → Execution}
    (keeps : ∀ exec, (change exec).id = exec.id ∧ (change exec).wakeAt = exec.wakeAt ∧
      (change exec).pendingException = exec.pendingException ∧
      (exec.isIdle = false → (change exec).isIdle = false))
    (blind : ∀ exec : Execution, change (exec.veil veil) = (change exec).veil veil) :
    Blind veil (modify fun machine => machine.modifyExec change : Guest Unit) := by
  refine .modify (fun machine covers => ?_) fun machine _ => machine.modifyExec_veil (blind _)
  obtain ⟨ends, id, parked, completed, clock, steady, clear, busy⟩ := covers
  obtain ⟨sameId, sameWake, sameKept, frame⟩ := keeps machine.exec
  refine ⟨ends, sameId.trans id, parked, completed, clock, fun holds => ?_,
    fun holds => sameKept.trans (clear holds), fun holds => frame (busy holds)⟩
  exact ⟨(steady holds).1, sameWake.trans (steady holds).2⟩

theorem blind_onStack (change : Stack → Stack) : Blind veil (onStack change) :=
  .modify (fun _ covers => covers) fun _ _ => rfl

theorem blind_fromStack (take : Stack → α × Stack) : Blind veil (fromStack take) :=
  fun _ covers => Ends.of_ok rfl ⟨covers, rfl⟩

theorem blind_modifyHeap (update : Machine → Heap → Heap)
    (blind : ∀ machine, update (machine.veil veil) = update machine) :
    Blind veil (modify fun machine => machine.modifyHeap (update machine) : Guest Unit) :=
  overlooks_modifyHeap (unnoticed_veil veil) update blind

theorem blind_modifyClass (id : ClassId) {change : Class → Class}
    (blind : ∀ (cls : Class) codes, change (cls.recode codes) = (change cls).recode codes) :
    Blind veil (modify fun machine => machine.modifyClass id change : Guest Unit) :=
  .modify (fun _ covers => covers_modifyClass covers id change) fun machine _ =>
    machine.modifyClass_veil id blind

/-- Linking beside a veil. -/
theorem blind_linking {steps : ClassPath → Linking α}
    (overlooks : ∀ {meant change}, ClassTable.Unnoticed meant change → ∀ path,
      Overlooks meant change (steps path)) :
    Blind veil (linking fun registry => registry.link steps) := by
  intro machine covers
  obtain ⟨kept, same⟩ := linking_veil covers fun unnoticed => overlooks unnoticed _
  exact Ends.of_ok rfl ⟨kept, by simp only [linking, same]; rfl⟩

theorem blind_loadRaw (name : String) : Blind veil (loadRaw name) :=
  blind_linking fun unnoticed path => Linking.overlooks_load unnoticed path [] name

theorem blind_linkArray (component : ClassId) :
    Blind veil (linking fun registry => registry.arrayOf component) :=
  blind_linking fun unnoticed path => Linking.overlooks_arrayOf unnoticed path component

theorem blind_resolveVirtual (receiver : ClassId) (resolved : MethodId) :
    Blind veil (linking fun registry => registry.resolveVirtual receiver resolved) := by
  intro machine covers
  have same := machine.registry.resolveVirtual_recode veil.recoding receiver resolved
  have size : (machine.registry.resolveVirtual receiver resolved).2.size = machine.registry.size := by
    rw [Registry.resolveVirtual]
    split
    · rfl
    · split <;> rfl
  obtain ⟨ends, rest⟩ := covers
  refine Ends.of_ok rfl ⟨⟨?_, rest⟩, ?_⟩
  · change veil.recoding.EndsAt (machine.registry.resolveVirtual receiver resolved).2.size
    rw [size]
    exact ends
  · simp only [linking]
    rw [show (machine.veil veil).registry = machine.registry.recode veil.recoding from rfl, same]
    rfl

end Guest

end Jvm
