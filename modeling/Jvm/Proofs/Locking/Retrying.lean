import Jvm.Machine.Access
import Jvm.Proofs.Heap.Strings
import Jvm.Proofs.Locking.Abiding
import Jvm.Proofs.Locking.Counting
import Jvm.Proofs.Locking.Exclusion
import Jvm.Proofs.Machine.Returns

/-!
# Instructions that wait for a lock

A call, or the entry of a monitor, asks for its lock when all else that it needs is there:
constants are resolved, the receiver has been looked at, the class has been made ready for use.
None of that takes operands off the stack, and what was resolved is remembered. So if the lock is
refused, every execution is where it was, with its stack, and the instruction can be tried again, as
often as it takes. No monitor has changed either, unless a class was made ready for which a
collection had to make room.
-/

namespace Jvm

namespace Machine

/-! ## Locks that are refused -/

variable {machine : Machine} {lock : Lock}

/-- Whether an execution other than the running one holds a lock. -/
def HeldElsewhere (machine : Machine) (lock : Lock) : Prop :=
  ∃ monitor, machine.monitor? lock = some monitor ∧ 0 < monitor.count.toNat ∧
    monitor.owner ≠ machine.exec.id

theorem heldElsewhere_iff : machine.HeldElsewhere lock ↔
    ∃ monitor, machine.monitor? lock = some monitor ∧ monitor.enter machine.exec.id = none := by
  have positive : ∀ count : UInt32, 0 < count.toNat ↔ count ≠ 0 := fun count => by
    rw [Nat.pos_iff_ne_zero, ne_eq, ne_eq, ← UInt32.toNat_inj]
    rfl
  simp only [HeldElsewhere, positive, Monitor.enter_eq_none_iff]

/-- A lock is refused exactly when another execution holds it, and it is not touched then. -/
theorem enterLock_cases (machine : Machine) (lock : Lock) :
    machine.HeldElsewhere lock ∧ machine.enterLock lock = (false, machine) ∨
      ¬machine.HeldElsewhere lock ∧ (machine.enterLock lock).1 = true := by
  rw [heldElsewhere_iff, enterLock]
  cases machine.monitor? lock with
  | none =>
      refine .inr ⟨?_, rfl⟩
      rintro ⟨_, ⟨⟩, _⟩
  | some monitor =>
      cases enters : monitor.enter machine.exec.id with
      | none => exact .inl ⟨⟨monitor, rfl, enters⟩, by simp only [enters]⟩
      | some next =>
          refine .inr ⟨?_, by simp only [enters]⟩
          rintro ⟨_, ⟨⟩, refused⟩
          cases enters.symm.trans refused

theorem enterLock_eq_false_iff :
    machine.enterLock lock = (false, machine) ↔ machine.HeldElsewhere lock := by
  rcases machine.enterLock_cases lock with ⟨held, refused⟩ | ⟨free, granted⟩
  · exact ⟨fun _ => held, fun _ => refused⟩
  · refine ⟨fun refused => ?_, fun held => absurd held free⟩
    rw [refused] at granted
    cases granted

end Machine

namespace Guest

open Machine

/-! ## Steps that leave alone what matters -/

/-- Whether a step leaves a machine kept as it was if what it returns is awaited. -/
def LeavesWhen {α : Type} (kept : Machine → Machine → Prop) (awaited : α → Prop)
    (step : Guest α) : Prop :=
  ∀ machine, Ends step machine (fun value after => awaited value → kept machine after)
    fun _ _ => True

/-- Whether a step leaves every execution and all locks as they were if what it returns is
awaited. -/
abbrev AbidesWhen {α : Type} (awaited : α → Prop) (step : Guest α) : Prop :=
  LeavesWhen Machine.Abides awaited step

/-- Whether a step that returns leaves every execution and all locks as they were. -/
abbrev Abides {α : Type} (step : Guest α) : Prop := AbidesWhen (fun _ => True) step

/-- Whether a step that returns leaves every execution as it was, and the locks of what lives. -/
abbrev Remains {α : Type} (step : Guest α) : Prop := LeavesWhen Machine.Remains (fun _ => True) step

theorem Abides.remains {α : Type} {step : Guest α} (abides : Abides step) : Remains step :=
  fun machine => (abides machine).mono (fun _ _ kept returned => (kept returned).toRemains)
    fun _ _ _ => trivial

namespace LeavesWhen

variable {kept : Machine → Machine → Prop} {α β : Type} {awaited : α → Prop}

protected theorem throw (thrown : Throw) : LeavesWhen kept awaited (throw thrown : Guest α) :=
  fun _ => ends_throw.mpr trivial

theorem modify {change : Machine → Machine} (leaves : ∀ machine, kept machine (change machine)) :
    LeavesWhen kept (fun _ => True) (modify change : Guest PUnit) := fun machine =>
  ends_modify.mpr fun _ => leaves machine

theorem linking {steps : Registry → α × Registry}
    (leaves : ∀ machine, kept machine { machine with registry := (steps machine.registry).2 }) :
    LeavesWhen kept (fun _ => True) (linking steps) := fun machine =>
  Ends.of_ok rfl fun _ => leaves machine

theorem raise (kind : ExceptionKind) (message : Option String) :
    LeavesWhen kept awaited (raise kind message : Guest α) := fun machine =>
  (ends_raise kind message machine).mono (fun _ _ returned => returned.elim) fun _ _ _ => trivial

/-- A step that does not wait keeps any promise about what it leaves if it does. -/
theorem ends_of_idle {step : Guest Step} (idle : ReturnsIdle False False step) (machine : Machine)
    {promised : Machine → Prop} :
    Ends step machine (fun ended after => ended = .blocked → promised after) fun _ _ => True :=
  (idle machine).mono (fun _ _ held waits => (held.2.2 waits).elim) fun _ _ _ => trivial

theorem of_idle {step : Guest Step} (idle : ReturnsIdle False False step) :
    LeavesWhen kept (· = .blocked) step := fun machine => ends_of_idle idle machine

variable [IsPreorder Machine kept]

protected theorem pure (value : α) : LeavesWhen kept awaited (pure value) := fun machine =>
  ends_pure.mpr fun _ => refl_of kept machine

protected theorem get : LeavesWhen kept (fun _ => True) get := fun machine =>
  ends_get.mpr fun _ => refl_of kept machine

/-- What comes next begins where the step before it has left all alone. -/
theorem next {machine between : Machine} (left : kept machine between) {step : Guest α}
    (ends : Ends step between (fun value after => awaited value → kept between after)
      fun _ _ => True) :
    Ends step between (fun value after => awaited value → kept machine after) fun _ _ => True :=
  ends.mono (fun _ _ later waits => trans_of kept left (later waits)) fun _ _ _ => trivial

protected theorem bind {step : Guest β} {next : β → Guest α}
    (first : LeavesWhen kept (fun _ => True) step)
    (rest : ∀ value, LeavesWhen kept awaited (next value)) :
    LeavesWhen kept awaited (step >>= next) := by
  intro machine
  rw [ends_bind]
  exact (first machine).mono
    (fun value between left => LeavesWhen.next (left trivial) (rest value between))
    fun _ _ _ => trivial

end LeavesWhen

section

variable (id : ClassId) (index : UInt16)

theorem abides_fault {α : Type} {awaited : α → Prop} (stateFault : StateFault) :
    AbidesWhen awaited (fault stateFault) :=
  .throw _

theorem abides_require {α : Type} (value : Option α) (missing : StateFault) :
    Abides (require value missing) := by
  cases value with
  | none => exact .throw _
  | some value => exact .pure value

theorem abides_ofLoad {α : Type} (loaded : Except LoadError α) : Abides (ofLoad loaded) := by
  cases loaded with
  | error error => exact .throw _
  | ok value => exact .pure value

theorem abides_constantAt : Abides (constantAt id index) :=
  .bind .get fun _ => abides_ofLoad _

theorem abides_remember (resolved : Constant) : Abides (remember id index resolved) :=
  .modify fun _ => .modifyClass (fun _ _ => ⟨rfl, rfl, rfl, rfl, rfl, fun begun => ⟨begun, rfl⟩⟩)
    fun _ => rfl

theorem abides_loadRaw (name : String) : Abides (loadRaw name) :=
  .linking fun machine => .of_registry (.of_prefixes (machine.registry.prefixes_load name).1)

theorem abides_linkClass : Abides (linkClass id index) := by
  refine .bind .get fun machine => ?_
  dsimp only
  split
  · exact .pure _
  · exact .pure _
  · split
    · exact .pure _
    · refine .bind (abides_loadRaw _) fun loaded => ?_
      cases loaded with
      | error error => exact .pure _
      | ok resolved => exact .bind (abides_remember id index _) fun _ => .pure _
  · exact .pure _

theorem abides_resolveClass : Abides (resolveClass id index) := by
  refine .bind (abides_linkClass id index) fun linked => ?_
  rw [orMissingClass.eq_def]
  split
  · exact .pure _
  · exact .raise _ _
  · exact .throw _

theorem abides_resolveMethod : Abides (resolveMethod id index) := by
  refine .bind (abides_constantAt id index) fun constant => ?_
  split
  case h_1 => exact .pure _
  case h_4 => exact .throw _
  all_goals
    refine .bind .get fun machine => .bind (abides_ofLoad _) fun member => ?_
    refine .bind (abides_resolveClass id _) fun owner => .bind .get fun machine => ?_
    dsimp only
    split
    · exact .bind (abides_remember id index _) fun _ => .pure _
    · exact .raise _ _

theorem abides_resolveVirtual (receiver : ClassId) (resolved : MethodId) (machine : Machine) :
    machine.Abides
      { machine with registry := (machine.registry.resolveVirtual receiver resolved).2 } := by
  have same := machine.registry.toClassTable_resolveVirtual receiver resolved
  refine .of_registry (.of_registry (fun {_ cls} linked => ⟨cls, ?_, .refl cls⟩) fun id => ?_)
  · rw [same]
    exact linked
  · rw [same]
    rfl

theorem abides_selectTarget (mode : CallMode) (receiver : Ref) (resolved : MethodId) :
    Abides (selectTarget mode receiver resolved) := by
  rw [selectTarget.eq_def]
  split
  · exact .pure _
  · refine .bind .get fun machine => .bind (abides_require _ _) fun cls => ?_
    refine .bind (.linking fun machine => abides_resolveVirtual cls resolved machine)
      fun found => ?_
    cases found with
    | some target => exact .pure _
    | none => exact .bind .get fun _ => .raise _ _

/-! ### Strings -/

theorem ends_newString_of_remains (text : String) (machine : Machine) :
    Ends (newString text) machine
      (fun _ after => machine.Remains after ∧ after = { machine with heap := after.heap })
      fun _ _ => True := by
  have aside : Spares (fun left : Machine => { left with heap := machine.heap }) (newString text) :=
    spares_newString (fun _ _ => rfl) text
  have keeps := ends_of_imp fun room : machine.Spacious =>
    (ends_newString_of_spacious room text).mono (fun _ _ built => built) fun _ _ _ => trivial
  refine ((aside machine).and keeps).mono (fun string after built => ?_) fun _ _ _ => trivial
  have same : after = { machine with heap := after.heap } :=
    congrArg (fun left : Machine => { left with heap := after.heap }) built.1
  refine ⟨?_, same⟩
  rw [same]
  exact .of_preserves fun room => same ▸ (built.2 room).1

theorem remains_internString (text : String) : Remains (internString text) := by
  intro machine
  rw [internString, ends_bind, ends_get]
  split
  · exact ends_pure.mpr fun _ => .refl machine
  next fresh =>
      rw [ends_bind]
      refine (ends_newString_of_remains text machine).mono (fun string after built => ?_)
        fun _ _ _ => trivial
      rw [ends_bind, ends_modify]
      refine ends_pure.mpr fun _ => built.1.trans (.intern string ?_)
      rw [built.2]
      exact fresh

theorem remains_resolveString : Remains (resolveString id index) := by
  refine .bind (abides_constantAt id index).remains fun constant => ?_
  split
  · exact .pure _
  · refine .bind .get fun machine => .bind (abides_ofLoad _).remains fun text => ?_
    refine .bind (remains_internString text) fun ref => ?_
    exact .bind (abides_remember id index _).remains fun _ => .pure _
  · exact .throw _

theorem remains_initialValue (kind : Kind) : Remains (initialValue id kind index) := by
  rw [initialValue.eq_def]
  refine .bind .get fun machine => ?_
  split
  case h_4 => exact .bind (remains_resolveString id index) fun _ => .pure _
  all_goals exact .bind (abides_ofLoad _).remains fun _ => .pure _

/-! ### Classes that are made ready -/

/-- No string that is resolved starts the initialization of a class, or writes static fields. -/
theorem spares_resolveString (cls : ClassId) :
    Spares (fun machine : Machine => ((machine.cls cls).initState, (machine.cls cls).statics))
      (resolveString id index) := by
  refine (Spares.get.bind fun _ => spares_ofLoad _).bind fun constant => ?_
  split
  · exact .pure _
  · refine Spares.get.bind fun machine => (spares_ofLoad _).bind fun text => ?_
    refine Spares.bind ?_ fun ref => Spares.bind (Spares.modify fun machine => ?_) fun _ => .pure _
    · refine Spares.get.bind fun machine => ?_
      split
      · exact .pure _
      · exact (spares_newString (fun _ _ => rfl) text).bind fun _ =>
          Spares.bind (Spares.modify fun _ => rfl) fun _ => .pure _
    · exact machine.registry.view_modify id cls _ (fun cls => (cls.initState, cls.statics))
        fun _ => rfl
  · exact .throw _

theorem spares_initialValue (cls : ClassId) (kind : Kind) :
    Spares (fun machine : Machine => ((machine.cls cls).initState, (machine.cls cls).statics))
      (initialValue id kind index) := by
  rw [initialValue.eq_def]
  refine Spares.get.bind fun machine => ?_
  split
  case h_4 => exact (spares_resolveString id index cls).bind fun _ => .pure _
  all_goals exact (spares_ofLoad _).bind fun _ => .pure _

/-- Static fields are written before initialization begins. -/
theorem remains_statics {machine : Machine} (fresh : (machine.cls id).initState = .uninitialized)
    (change : Class → Option Fields) :
    machine.Remains (machine.modifyClass id fun cls => { cls with statics := change cls }) := by
  refine .modifyClass (fun cls linked => ⟨rfl, rfl, rfl, rfl, rfl, fun begun => absurd ?_ begun⟩)
    fun _ => rfl
  have same : machine.cls id = cls := by
    rw [Machine.cls, ClassTable.get_eq_getD, linked, Option.getD_some]
  exact same ▸ fresh

theorem initState_statics (machine : Machine) (change : Class → Option Fields) :
    ((machine.modifyClass id fun cls => { cls with statics := change cls }).cls id).initState =
      (machine.cls id).initState :=
  machine.registry.view_modify id id (fun cls => { cls with statics := change cls })
    Class.initState fun _ => rfl

/-- Static fields that are there are there after one of them was written. -/
theorem statics_modifyClass (machine : Machine) (change : Fields → Fields) :
    ((machine.modifyClass id fun cls =>
        { cls with statics := cls.statics.map change }).cls id).statics =
      (machine.cls id).statics.map change := by
  rw [cls_modifyClass, Machine.cls, ClassTable.get_eq_getD]
  cases machine.registry.class? id <;> rfl

theorem ends_storeInitialValues (values : List (Field × UInt16)) {machine : Machine}
    (fresh : (machine.cls id).initState = .uninitialized)
    (prepared : (machine.cls id).statics ≠ none) :
    Ends (storeInitialValues id values) machine
      (fun _ after => machine.Remains after ∧ (after.cls id).statics ≠ none) fun _ _ => True := by
  induction values generalizing machine with
  | nil => exact ends_pure.mpr ⟨.refl machine, prepared⟩
  | cons value rest ih =>
      obtain ⟨field, index⟩ := value
      rw [storeInitialValues, ends_bind]
      refine ((remains_initialValue id index field.kind machine).and
        (spares_initialValue id index id field.kind machine)).mono (fun value between found => ?_)
        fun _ _ _ => trivial
      obtain ⟨remains, same⟩ := found
      obtain ⟨state, statics⟩ := Prod.mk.inj same
      have still := state.trans fresh
      rw [ends_bind, putStatic, ends_modify]
      refine (ih ?_ ?_).mono (fun _ _ later => ?_) fun _ _ _ => trivial
      · exact (initState_statics id between _).trans still
      · rw [statics_modifyClass, statics, ne_eq, Option.map_eq_none_iff]
        exact prepared
      · exact ⟨((remains trivial).trans (remains_statics id still _)).trans later.1, later.2⟩

theorem abides_setState {machine : Machine} {state : InitState} (begun : state ≠ .uninitialized) :
    machine.Abides (machine.modifyClass id fun cls => { cls with initState := state }) :=
  .modifyClass (fun _ _ => ⟨rfl, rfl, rfl, rfl, rfl, fun _ => ⟨begun, rfl⟩⟩) fun _ => rfl

/-- A class begins its initialization when its static fields are there. If there is no such class,
it has no initial values either. -/
theorem ends_prepareStatics {machine : Machine}
    (fresh : (machine.cls id).initState = .uninitialized) :
    Ends (prepareStatics id) machine
      (fun _ prepared => machine.Abides
        (prepared.modifyClass id fun cls => { cls with initState := .initializing }))
      fun _ _ => True := by
  rw [prepareStatics, ends_bind, ends_modify, ends_bind, ends_get]
  cases linked : machine.registry.class? id with
  | none =>
      have bare : ((machine.modifyClass id fun cls => { cls with
          statics := some (Fields.ofSize cls.staticSlots.toNat) }).cls id).initialValues = [] := by
        rw [cls_modifyClass, linked]
        rfl
      rw [bare]
      refine ends_pure.mpr (Abides.trans ?_ (abides_setState id (by decide)))
      exact .modifyClass (fun _ there => nomatch linked.symm.trans there) fun _ => rfl
  | some cls =>
      refine (ends_storeInitialValues id _ ?_ ?_).mono (fun _ _ later => ?_) fun _ _ _ => trivial
      · exact (initState_statics id machine _).trans fresh
      · rw [cls_modifyClass, linked]
        rintro ⟨⟩
      · obtain ⟨later, prepared⟩ := later
        have remains := (remains_statics id fresh _).trans later
        obtain ⟨cls', linked', -⟩ := remains.classes linked
        rw [Machine.cls, ClassTable.get_eq_getD, linked'] at prepared
        refine .of_initiates (remains.trans (abides_setState id (by decide)).toRemains)
          ⟨id, fresh, ?_⟩
        rw [cls_modifyClass, linked']
        exact ⟨by rintro ⟨⟩, prepared⟩

theorem abides_setInitState {state : InitState} (begun : state ≠ .uninitialized) :
    Abides (setInitState id state) :=
  .modify fun _ => abides_setState id begun

theorem abides_pushInitializer (pc : UInt32) :
    AbidesWhen (· = false) (pushInitializer id pc) := by
  intro machine
  rw [pushInitializer, ends_bind, ends_get]
  split
  · exact ends_pure.mpr fun _ => .refl machine
  · rw [ends_bind]
    refine (ends_trivial _ machine).mono (fun _ _ _ => ends_pure.mpr ?_) fun _ _ _ => trivial
    intro stays
    cases stays

/-- A class is made ready at once if neither it nor a class above it has an initializer. -/
theorem abides_initializeChain (ids : List ClassId) (pc : UInt32) :
    AbidesWhen (· = false) (initializeChain ids pc) := by
  induction ids generalizing pc with
  | nil => exact .pure _
  | cons id above ih =>
      intro machine
      rw [initializeChain, ends_bind, ends_get]
      cases state : (machine.cls id).initState with
      | initialized | initializing => exact ends_pure.mpr fun _ => .refl machine
      | failed =>
          dsimp only
          exact LeavesWhen.bind .get (fun _ => .raise _ _) machine
      | uninitialized =>
          dsimp only
          rw [ends_bind]
          refine (ends_prepareStatics id state).mono (fun _ prepared abides => ?_)
            fun _ _ _ => trivial
          have ends : Abides (setInitState id .initialized) := abides_setInitState id (by decide)
          rw [ends_bind, setInitState, ends_modify]
          refine LeavesWhen.next abides ?_
          rw [ends_bind]
          refine (abides_pushInitializer id pc _).mono (fun pushed pushedTo waits => ?_)
            fun _ _ _ => trivial
          cases pushed with
          | true =>
              rw [ends_bind]
              refine (ends_trivial _ pushedTo).mono (fun pushedAbove after _ => ?_)
                fun _ _ _ => trivial
              simp only [Bool.not_true, Bool.false_and, Bool.false_eq_true, if_false, Bool.true_or]
              exact ends_pure.mpr fun stays => by cases stays
          | false =>
              refine LeavesWhen.next (waits rfl) ?_
              rw [ends_bind, ends_onThrow]
              refine (ih _ pushedTo).mono (fun pushedAbove above abides => ?_) fun _ _ _ => trivial
              cases pushedAbove with
              | true => exact ends_pure.mpr fun stays => by cases stays
              | false => exact LeavesWhen.next (abides rfl) (ends.bind (fun _ => .pure _) above)

theorem abides_ensureInitialized (pc : UInt32) :
    AbidesWhen (· = false) (ensureInitialized id pc) := by
  refine .bind .get fun machine => ?_
  split
  · exact .pure _
  · exact .pure _
  · exact abides_initializeChain _ pc

end

/-! ## Instructions that wait -/

section

variable (reentry : Reentry) (id : ClassId) (index : UInt16) (pc returnPc : UInt32)

/-- A lock that is not granted is held by another execution, and is not touched. -/
theorem ends_takeLock (lock : Option Lock) (machine : Machine) :
    Ends (takeLock lock) machine
      (fun taken after => taken = false →
        after = machine ∧ ∃ asked, lock = some asked ∧ machine.HeldElsewhere asked)
      fun _ _ => True := by
  cases lock with
  | none => exact ends_pure.mpr nofun
  | some lock =>
      rw [takeLock, enterLock, ends_modifyGet]
      rcases machine.enterLock_cases lock with ⟨held, refused⟩ | ⟨-, granted⟩
      · rw [refused]
        exact fun _ => ⟨rfl, lock, rfl, held⟩
      · rw [granted]
        exact nofun

/-- The entry of a monitor waits for another execution, and nothing changes. -/
theorem ends_enterMonitor (machine : Machine) :
    Ends (enterMonitor returnPc) machine
      (fun ended after => ended = .blocked → after = machine ∧
        ∃ ref, machine.exec.stack.peekRef 0 = some ref ∧ machine.HeldElsewhere (.object ref))
      fun _ _ => True := by
  rw [enterMonitor, ends_bind, ends_get]
  split
  next => exact LeavesWhen.ends_of_idle (.bind fun _ => .raise _ _) machine
  next ref operand =>
      rw [ends_bind]
      refine (ends_takeLock (some (.object ref)) machine).mono (fun taken after refused => ?_)
        fun _ _ _ => trivial
      cases taken with
      | true => exact LeavesWhen.ends_of_idle (.bind fun _ => .proceed _) after
      | false =>
          obtain ⟨same, asked, ⟨⟩, held⟩ := refused rfl
          exact ends_pure.mpr fun _ => ⟨same, ref, operand, held⟩

/-- A call waits for another execution, and nothing changes. -/
theorem ends_invoke (method : MethodId) (machine : Machine) :
    Ends (invoke reentry method pc returnPc) machine
      (fun ended after => ended = .blocked → after = machine ∧
        (machine.method method).isAbstract = false ∧
        ∃ lock, callLock? machine method = some lock ∧ machine.HeldElsewhere lock)
      fun _ _ => True := by
  rw [invoke, ends_bind, ends_get]
  dsimp only
  split
  · exact LeavesWhen.ends_of_idle (.raise _ _) machine
  next concrete =>
      rw [ends_bind]
      refine (ends_takeLock (callLock? machine method) machine).mono (fun taken after refused => ?_)
        fun _ _ _ => trivial
      cases taken with
      | true =>
          rw [if_neg (by decide)]
          refine LeavesWhen.ends_of_idle ?_ after
          exact .ite (.bind fun _ => .bind fun _ => .next) (.bind fun _ => .next)
      | false =>
          obtain ⟨same, lock, locked, held⟩ := refused rfl
          exact ends_pure.mpr fun _ =>
            ⟨same, Bool.eq_false_of_not_eq_true concrete, lock, locked, held⟩

theorem abides_enterMonitor : AbidesWhen (· = .blocked) (enterMonitor returnPc) := fun machine =>
  (ends_enterMonitor returnPc machine).mono
    (fun _ _ held waits => (held waits).1 ▸ .refl machine) fun _ _ _ => trivial

theorem abides_invoke (method : MethodId) :
    AbidesWhen (· = .blocked) (invoke reentry method pc returnPc) := fun machine =>
  (ends_invoke reentry pc returnPc method machine).mono
    (fun _ _ held waits => (held waits).1 ▸ .refl machine) fun _ _ _ => trivial

theorem abides_invokeInstance (mode : CallMode) :
    AbidesWhen (· = .blocked) (invokeInstance reentry mode id index pc returnPc) := by
  refine .bind (abides_resolveMethod id index) fun resolved => .bind .get fun machine => ?_
  dsimp only
  split
  · exact .raise _ _
  · split
    · exact .raise _ _
    · exact .bind (abides_selectTarget mode _ _) fun target =>
        abides_invoke reentry pc returnPc target

theorem abides_invokeStatic :
    AbidesWhen (· = .blocked) (invokeStatic reentry id index pc returnPc) := by
  refine .bind (abides_resolveMethod id index) fun resolved => ?_
  split
  · exact .bind .get fun _ => .raise _ _
  · intro machine
    rw [ends_bind]
    refine (abides_ensureInitialized _ pc machine).mono (fun begins ready abides => ?_)
      fun _ _ _ => trivial
    cases begins with
    | true => exact ends_pure.mpr nofun
    | false =>
        exact LeavesWhen.next (abides rfl) (abides_invoke reentry pc returnPc resolved.method ready)

/-- An instruction that waits for a lock leaves every execution and all locks as they were. -/
theorem abides_execute (method : MethodId) (code : Array UInt8) (instr : Instr) :
    AbidesWhen (· = .blocked) (execute reentry method code pc returnPc instr) := by
  have idle : ReturnsIdle False instr.TakesLock
      (execute reentry method code pc returnPc instr) :=
    .execute reentry method code pc returnPc instr
  cases instr with
  | invoke mode index => exact abides_invokeInstance reentry method.owner index pc returnPc mode
  | invokeStatic index => exact abides_invokeStatic reentry method.owner index pc returnPc
  | enterMonitor => exact abides_enterMonitor returnPc
  | _ => exact .of_idle idle

theorem abides_fetch (method : MethodId) (byte : UInt8) : Abides (fetch method pc byte) := by
  intro machine
  refine (ends_fetch_debugged method pc byte machine).mono (fun fetched after found _ => ?_)
    fun _ _ _ => trivial
  obtain ⟨debugger, ⟨-, -, -, rfl⟩ | ⟨run, -, -, rfl⟩⟩ := found
  · exact .marked machine debugger _
  · exact .marked machine debugger _

theorem abides_ofDecodeFault {α : Type} {awaited : α → Prop} (method : MethodId)
    (decodeFault : DecodeFault) : AbidesWhen awaited (ofDecodeFault method decodeFault) := by
  refine .bind .get fun machine => ?_
  cases decodeFault with
  | outside | unknown | notWidenable => exact .throw _

theorem abides_ofDecode {α : Type} (method : MethodId) (decoded : Except DecodeFault α) :
    Abides (ofDecode method decoded) := by
  cases decoded with
  | ok value => exact .pure _
  | error decodeFault => exact abides_ofDecodeFault method decodeFault

theorem abides_executeByte (method : MethodId) (code : Array UInt8) (byte : UInt8) :
    AbidesWhen (· = .blocked) (executeByte reentry method code pc byte) := by
  rw [executeByte]
  split
  · exact abides_ofDecodeFault method _
  · exact .bind (abides_ofDecode method _) fun decoded =>
      abides_execute reentry pc decoded.2 method code decoded.1

/-- A step that waits for a lock leaves every execution and all locks as they were. -/
theorem abides_step : AbidesWhen (· = .blocked) (step reentry) := by
  refine .bind .get fun machine => ?_
  split
  · exact abides_fault _
  next method _ =>
      refine .bind (abides_ofDecode method _) fun byte => ?_
      refine .bind (abides_fetch _ method byte) fun fetched => ?_
      cases fetched with
      | none => exact .pure _
      | some byte => exact abides_executeByte reentry _ method _ byte

end

end Guest

namespace Machine

/-! ## Trying again -/

/-- Whether an execution waits for a lock at its instruction. -/
def Waits (reentry : Reentry) (before after : Machine) : Prop :=
  Guest.step reentry before = .ok .blocked after

/-- Whether every execution is where it was, with its frames and operands, and the locks of all
classes are held as they were. So are those of all objects, unless a class has begun its
initialization, and even then those of objects that live on. -/
structure Unmoved (before after : Machine) : Prop where
  method : after.exec.method = before.exec.method
  pc : after.exec.pc = before.exec.pc
  startSp : after.exec.startSp = before.exec.startSp
  frames : after.exec.frames = before.exec.frames
  stack : after.exec.stack = before.exec.stack
  parked : after.parked = before.parked
  classes : ∀ id, after.monitor? (.cls id) = before.monitor? (.cls id)
  heap : ¬before.Initiates after → after.heap = before.heap
  objects : before.Spacious → ∀ {ref}, before.Sustains ref →
    ∀ {monitor}, before.monitor? (.object ref) = some monitor →
      after.monitor? (.object ref) = some monitor

theorem Abides.unmoved {before after : Machine} (abides : before.Abides after) :
    before.Unmoved after where
  method := abides.method
  pc := abides.pc
  startSp := abides.startSp
  frames := abides.frames
  stack := abides.stack
  parked := abides.parked
  classes id := congrArg some (abides.monitors id)
  heap := abides.heap
  objects room _ sustained _ found := abides.monitor?_object room sustained found

/-- However often an instruction waits, it waits where it waited first. -/
theorem abides_of_waits {reentry : Reentry} {before after : Machine}
    (waits : Relation.ReflTransGen (Waits reentry) before after) : before.Abides after := by
  induction waits with
  | refl => exact .refl before
  | tail _ waits ih =>
      have abides := ends_of_ok waits (Guest.abides_step reentry _)
      exact ih.trans (abides rfl)

/-- A heap in which a handle is left for each object stays so. -/
theorem spacious_of_does {config : Config} {classes : ClassPath} {start later : Machine}
    (started : Machine.start config classes = .ok start)
    (small : config.heapLimit < Heap.handles * Object.headerSize)
    (run : Relation.ReflTransGen Does start later) : later.Spacious := by
  obtain ⟨balanced, limit⟩ := balanced_of_start started
  have counts := counts_of_does run
  rw [← limit, ← counts.limit_eq] at small
  exact ⟨counts.balanced balanced, small⟩

theorem blocked_enterMonitor_iff {machine after : Machine} (next : UInt32) :
    Guest.enterMonitor next machine = .ok .blocked after ↔ after = machine ∧
      ∃ ref, machine.exec.stack.peekRef 0 = some ref ∧ machine.HeldElsewhere (.object ref) := by
  constructor
  · intro ran
    exact ends_of_ok ran (Guest.ends_enterMonitor next machine) rfl
  · rintro ⟨rfl, ref, operand, held⟩
    exact enterMonitor_of_refused operand (enterLock_eq_false_iff.mpr held) next

theorem blocked_invoke_iff {machine after : Machine} (reentry : Reentry) (method : MethodId)
    (callerPc returnPc : UInt32) :
    Guest.invoke reentry method callerPc returnPc machine = .ok .blocked after ↔
      after = machine ∧ (machine.method method).isAbstract = false ∧
        ∃ lock, Guest.callLock? machine method = some lock ∧ machine.HeldElsewhere lock := by
  constructor
  · intro ran
    exact ends_of_ok ran (Guest.ends_invoke reentry callerPc returnPc method machine) rfl
  · rintro ⟨rfl, concrete, lock, locked, held⟩
    exact invoke_of_refused concrete locked (enterLock_eq_false_iff.mpr held) reentry callerPc
      returnPc

/-- A class whose initialization has not begun, whose lock another execution holds. It has two
static strings, and these static fields. -/
def lateClass (statics : Fields) : Class :=
  let field (name : String) (slot index : UInt16) : Field :=
    { name, descriptor := "Ljava/lang/String;", flags := Access.isStatic, kind := .reference, slot
      constantValue := some index }
  { (default : Class) with
    id := ⟨2⟩
    pool := ⟨#[.empty, .string 3, .string 4, .utf8 "", .utf8 "a"]⟩
    fields := [field "s" 0 1, field "t" 1 2]
    methods := #[{ guardedMethod with owner := ⟨2⟩ }]
    staticSlots := 2, staticRefSlots := [0, 1], statics := some statics, monitor := ⟨2, 1⟩ }

/-- The class before it has its strings. -/
def lateBlank : Class := lateClass (Fields.ofSize 2)

/-- A class that has resolved a constant to a string, and has that in a static field. -/
def lateNamed (cls : Class) (index : UInt16) (slot : Nat) (ref : Ref) : Class :=
  { cls with
    pool := cls.pool.set index (.resolvedString ref)
    statics := cls.statics.map (·.write slot (.ref (some ref))) }

/-- The class when it has its strings. -/
def lateFilled (ref other : Ref) : Class := lateNamed (lateNamed lateBlank 1 0 ref) 2 1 other

/-- The canonical strings when the class has its first one. -/
def lateStrings (ref : Ref) : Std.HashMap String Ref := ({} : Std.HashMap String Ref).insert "" ref

/-- A machine that is about to call a method of that class. -/
def calling (late : Class) (heap : Heap) (interned : Std.HashMap String Ref) : Machine :=
  let resolved : ResolvedMethod := { method := ⟨⟨2⟩, 0⟩, argSlots := 0, isStatic := true }
  let caller : Class :=
    { classOf [nullary #[0xB8, 0, 1]] with pool := ⟨#[.empty, .resolvedMethod resolved]⟩ }
  let string : Class := { (default : Class) with id := ⟨1⟩, instanceSlots := 2, refSlots := [0] }
  { within #[0xB8, 0, 1] [] with
    registry := { classes := #[caller, string, late] }
    known := { (default : WellKnown) with string := ⟨1⟩, stringValue := 0, stringCoder := 1 }
    heap, interned
    parked := [(Execution.idle 2 64).enter guardedMethod ⟨⟨2⟩, 0⟩ 0 0]
    nextExec := 3 }

/-- The machine when the class has its first string. -/
def lateHalf (heap : Heap) (ref : Ref) : Machine :=
  calling (lateNamed lateBlank 1 0 ref) heap (lateStrings ref)

/-- The machine when the class is ready for use. -/
def lateReady (heap : Heap) (ref other : Ref) : Machine :=
  calling { lateFilled ref other with initState := .initialized } heap
    ((lateStrings ref).insert "a" other)

/-- A machine when that class has resolved a constant to a string. -/
def lateResolved (machine : Machine) (index : UInt16) (ref : Ref) : Machine :=
  machine.modifyClass ⟨2⟩ fun cls => { cls with pool := cls.pool.set index (.resolvedString ref) }

theorem run_initialValue {machine after : Machine} {text : String} {index textIndex : UInt16}
    {ref : Ref} (held : (machine.cls ⟨2⟩).pool.get index = .ok (.string textIndex))
    (read : (machine.cls ⟨2⟩).pool.utf8 textIndex = .ok text)
    (fresh : machine.interned[text]? = none)
    (built : Guest.newString text machine = .ok ref after) :
    Guest.initialValue ⟨2⟩ .reference index machine =
      .ok (.ref (some ref)) (lateResolved (after.intern text ref) index ref) := by
  have interns : Guest.internString text machine = .ok ref (after.intern text ref) := by
    refine (bind_of_ok (run_get _)).trans ?_
    rw [fresh]
    exact (bind_of_ok built).trans rfl
  have symbolic : Guest.constantAt ⟨2⟩ index machine = .ok (.string textIndex) machine := by
    refine (bind_of_ok (run_get _)).trans ?_
    rw [held]
    rfl
  have resolves : Guest.resolveString ⟨2⟩ index machine =
      .ok ref (lateResolved (after.intern text ref) index ref) := by
    refine (bind_of_ok symbolic).trans ((bind_of_ok (run_get _)).trans ?_)
    rw [read]
    exact (bind_of_ok rfl).trans ((bind_of_ok interns).trans rfl)
  exact (bind_of_ok (run_get _)).trans ((bind_of_ok resolves).trans rfl)

section

variable {heap middle last : Heap} {ref other : Ref}
  (built : Guest.newString "" (calling lateBlank heap {}) = .ok ref (calling lateBlank middle {}))
  (rebuilt : Guest.newString "a" (lateHalf (middle.setSticky ref) ref) =
    .ok other (lateHalf last ref))
  (statics : Fields)

include built rebuilt

/-- The class has no initializer, nor has another one above it. -/
theorem run_ensureInitialized_calling :
    Guest.ensureInitialized ⟨2⟩ 0 (calling (lateClass statics) heap {}) =
      .ok false (lateReady (last.setSticky other) ref other) := by
  have fresh : (lateStrings ref)["a"]? = none := by
    rw [lateStrings, Std.HashMap.getElem?_insert, if_neg (by decide)]
    exact Std.HashMap.getElem?_empty
  have prepares : Guest.prepareStatics ⟨2⟩ (calling (lateClass statics) heap {}) =
      .ok ⟨⟩ (calling (lateFilled ref other) (last.setSticky other) _) :=
    (bind_of_ok (run_initialValue rfl rfl Std.HashMap.getElem?_empty built)).trans
      (bind_of_ok (run_initialValue rfl rfl fresh rebuilt))
  let started := calling { lateFilled ref other with initState := .initializing }
    (last.setSticky other) ((lateStrings ref).insert "a" other)
  have bare : (started.cls ⟨2⟩).initializer? = none := by
    change lateBlank.initializer? = none
    decide +kernel
  have idle : Guest.pushInitializer ⟨2⟩ 0 started = .ok false started := by
    refine (bind_of_ok (run_get started)).trans ?_
    rw [bare]
    rfl
  have chain : (calling (lateClass statics) heap {}).registry.superChain ⟨2⟩ = [⟨2⟩] := by
    rw [ClassTable.superChain]
    rfl
  refine (bind_of_ok (run_get _)).trans (Eq.trans (congrArg (Guest.initializeChain · 0
    (calling (lateClass statics) heap {})) chain) ?_)
  exact (bind_of_ok (run_get _)).trans ((bind_of_ok prepares).trans
    ((bind_of_ok (run_modify _ _)).trans ((bind_of_ok idle).trans ((bind_of_ok rfl).trans
      ((bind_of_ok (run_modify _ _)).trans rfl)))))

set_option maxRecDepth 4000 in
theorem waits_calling : Waits (Bounds.reentry {}) (calling (lateClass statics) heap {})
    (lateReady (last.setSticky other) ref other) := by
  have fetched : Guest.fetch ⟨⟨0⟩, 0⟩ 0 0xB8 (calling (lateClass statics) heap {}) =
      .ok (some 0xB8) _ := rfl
  have executed : Guest.executeByte (Bounds.reentry {}) ⟨⟨0⟩, 0⟩ #[0xB8, 0, 1] 0 0xB8 =
      Guest.invokeStatic (Bounds.reentry {}) ⟨0⟩ 1 0 3 := rfl
  have guarded : (lateReady (last.setSticky other) ref other).method ⟨⟨2⟩, 0⟩ =
      { guardedMethod with owner := ⟨2⟩ } := rfl
  have lock : Guest.callLock? (lateReady (last.setSticky other) ref other) ⟨⟨2⟩, 0⟩ =
      some (.cls ⟨2⟩) := by
    rw [Guest.callLock?, Machine.lockOf?, guarded]
    rfl
  have elsewhere : (2 : ExecId) ≠ Execution.mainId := by decide
  refine (bind_of_ok (run_get _)).trans ((bind_of_ok rfl).trans ((bind_of_ok fetched).trans ?_))
  refine (congrFun executed _).trans ((bind_of_ok rfl).trans ((bind_of_ok
    (run_ensureInitialized_calling built rebuilt statics)).trans ?_))
  exact (blocked_invoke_iff _ _ _ _).mpr
    ⟨rfl, guarded ▸ rfl, .cls ⟨2⟩, lock, ⟨2, 1⟩, rfl, Nat.one_pos, elsewhere⟩

end

/-! ### Its strings -/

/-- A heap with an array of bytes more. -/
def withBytes (heap : Heap) (bytes : List Int8) : Ref × Heap :=
  heap.nextHash.2.insert
    { cls := ⟨0⟩, hash := heap.nextHash.1, body := .array (.bytes bytes.toArray) }

/-- A heap with an object for a string more. -/
def withFields (heap : Heap) : Ref × Heap :=
  heap.nextHash.2.insert
    { cls := ⟨1⟩, hash := heap.nextHash.1, body := .instance (Fields.ofSize 2) }

/-- A heap with a string more. -/
def withString (heap : Heap) (bytes : List Int8) : Ref × Heap :=
  let value := withBytes heap bytes
  let string := withFields value.2
  (string.1, string.2.modifyFields string.1 fun fields =>
    (fields.setRef 0 (some value.1)).setInt 1 Text.latin1.toInt32)

section

variable {late : Class} {heap between : Heap} {interned : Std.HashMap String Ref} {text : String}
  {bytes : List Int8} {size : Nat} {ref lost : Ref}

/-- A string is built in the heap that a collection has left, if one was due. -/
theorem run_newString_calling (compact : Text.compact text = (bytes, Text.latin1))
    (charged : Heap.objectSize? (ArrayData.bytes bytes.toArray).byteSize = some size)
    (due : Guest.collectIfDue size (calling late heap interned) =
      .ok ⟨⟩ (calling late between interned))
    (fits : between.fits size = true)
    (early : (withBytes between bytes).2.wantsCollection 24 = false)
    (room : (withBytes between bytes).2.fits 24 = true) :
    Guest.newString text (calling late heap interned) =
      .ok (withString between bytes).1 (calling late (withString between bytes).2 interned) := by
  rw [Guest.newString, compact]
  exact StringNative.run_newCompactString Text.latin1 (run_alloc_of_due charged due fits)
    ((bind_of_ok (run_get _)).trans (@run_alloc_of_room _ 8 24 _ rfl early room)) rfl

/-- Nobody holds the monitors of what a string is built of. -/
theorem monitor?_ready (gone : heap.get? lost = none) :
    (lateReady ((withString heap bytes).2.setSticky (withString heap bytes).1) ref
      (withString heap bytes).1).monitor? (.object lost) ≠ some ⟨2, 1⟩ := by
  have fresh : ∀ {object}, (withFields (withBytes heap bytes).2).2.get? lost = some object →
      object.monitor = .free := by
    intro object held
    rcases Heap.eq_or_held_of_insert held with rfl | held
    · rfl
    · rcases Heap.eq_or_held_of_insert held with rfl | held
      · rfl
      · cases gone.symm.trans held
  intro kept
  obtain ⟨object, found, monitor⟩ := Option.map_eq_some_iff.mp kept
  change ((withString heap bytes).2.setSticky (withString heap bytes).1).get? lost = _ at found
  rw [Heap.setSticky, Heap.get?_modify, withString, Heap.modifyFields, Heap.get?_modify] at found
  split at found
  · obtain ⟨_, there, rfl⟩ := Option.map_eq_some_iff.mp found
    obtain ⟨other, before, rfl⟩ := Option.map_eq_some_iff.mp there
    cases (other.monitor_modifyFields.trans (fresh before)).symm.trans monitor
  · cases (fresh found).symm.trans monitor

end

/-! ### What a collection between them takes -/

/-- An array of no bytes. -/
def emptyBytes (monitor : Monitor) : Object :=
  { cls := ⟨0⟩, hash := 1, body := .array (.bytes #[]), monitor }

/-- A string that has an object in place of its bytes. -/
def holding (ref : Ref) : Object :=
  { cls := ⟨1⟩, hash := 1, body := .instance ⟨#[Ref.toSlot (some ref), 0]⟩ }

/-- So many objects, some of which are pinned. -/
structure Arena where
  count : Nat
  place : Nat → Object
  pinned : List Ref

variable {arena : Arena} {lost : Ref}

namespace Arena

/-- A heap of them, in which a collection is due after 48 bytes. -/
def heap (arena : Arena) : Heap :=
  let bare : Heap := { Heap.ofConfig {} with
    objects := Array.ofFn fun index : Fin arena.count => some (arena.place index) }
  { bare with
    usedBytes := bare.occupiedBytes, totalAllocated := bare.population, pinned := arena.pinned
    limit := bare.occupiedBytes + arena.count * Object.headerSize + 128, threshold := 48 }

/-- The heap with the first string of the class. -/
def string (arena : Arena) : Ref × Heap := withString arena.heap []

/-- The machine when the class has that string. -/
def half (arena : Arena) : Machine :=
  lateHalf (arena.string.2.setSticky arena.string.1) arena.string.1

theorem size_heap : arena.heap.objects.size = arena.count := Array.size_ofFn

/-- The string and its bytes are behind them. -/
theorem handles : (withBytes arena.heap []).1 = Ref.ofIndex arena.count ∧
    arena.string.1 = Ref.ofIndex (arena.count + 1) := by
  rw [← size_heap]
  exact ⟨rfl, congrArg Ref.ofIndex (Array.size_push _)⟩

theorem getD_heap (index : Nat) : arena.heap.objects.getD index none =
    if index < arena.count then some (arena.place index) else none := by
  rw [Array.getD_eq_getD_getElem?, heap, Array.getElem?_ofFn]
  split <;> rfl

/-- Whether nothing but static fields of the class names an object, besides a string that is pinned
and is where the first string of the class is built. -/
structure Loses (arena : Arena) (lost : Ref) : Prop where
  objects : ∀ index, (∃ monitor, arena.place index = emptyBytes monitor) ∨
    index = arena.string.1.index ∧ arena.place index = holding lost
  pinned : lost ∉ arena.pinned
  value : (withBytes arena.heap []).1 ≠ lost
  string : arena.string.1 ≠ lost

namespace Loses

variable (loses : arena.Loses lost)

include loses

theorem balanced : arena.heap.Balanced where
  unmarked := Heap.unmarked_of_held fun {index object} held => by
    rw [getD_heap] at held
    split at held
    · cases held
      obtain ⟨_, same⟩ | ⟨-, same⟩ := loses.objects index <;> rw [same] <;> rfl
    · cases held
  mem_free index := by
    refine ⟨nofun, fun ⟨inside, empty⟩ => ?_⟩
    rw [size_heap] at inside
    rw [Heap.holds, getD_heap, if_pos inside] at empty
    cases empty
  nodup_free := List.nodup_nil
  charged := rfl
  bounded := Nat.le_add_right_of_le (Nat.le_add_right _ _)
  counted := rfl
  places := by
    rw [size_heap]
    exact Nat.le_add_right_of_le (Nat.le_add_left _ _)

/-- Once the first string is there, no object names it. -/
theorem of_held {index : Nat} {object : Object}
    (held : arena.half.heap.objects.getD index none = some object) :
    object.marked = false ∧ (object.sticky = true → index = arena.string.1.index) ∧
      ¬object.Holds arena.half.registry.toClassTable lost := by
  have bytes {object : Object} {bytes : Array Int8} (body : object.body = .array (.bytes bytes)) :
      ¬object.Holds arena.half.registry.toClassTable lost := by
    rintro (⟨body'⟩ | ⟨body'⟩) <;> cases body.symm.trans body'
  have string {object : Object} {fields : Fields} (cls : object.cls = ⟨1⟩)
      (body : object.body = .instance fields) (apart : fields.getRef 0 ≠ some lost) :
      ¬object.Holds arena.half.registry.toClassTable lost := by
    rintro (⟨body', linked, traced, held⟩ | ⟨body'⟩) <;> cases body.symm.trans body'
    cases (cls ▸ linked : ClassTable.class? _ ⟨1⟩ = _)
    cases List.mem_singleton.mp traced
    exact apart held
  have origin {other} (held : (withFields (withBytes arena.heap []).2).2.objects.getD index none =
      some other) : other.marked = false ∧ other.sticky = false ∧
        ((∃ bytes, other.body = .array (.bytes bytes)) ∨ ∃ slot, other.cls = ⟨1⟩ ∧
          other.body = .instance ⟨#[slot, 0]⟩ ∧ (slot = 0 ∨ index = arena.string.1.index)) := by
    rcases Heap.eq_or_held_of_insert held with rfl | held
    · exact ⟨rfl, rfl, .inr ⟨0, rfl, rfl, .inl rfl⟩⟩
    · rcases @Heap.eq_or_held_of_insert arena.heap.nextHash.2 _ _ _ held with rfl | held
      · exact ⟨rfl, rfl, .inl ⟨_, rfl⟩⟩
      · have held := (getD_heap index).symm.trans held
        split at held
        · cases held
          obtain ⟨_, same⟩ | ⟨here, same⟩ := loses.objects index <;> rw [same]
          · exact ⟨rfl, rfl, .inl ⟨_, rfl⟩⟩
          · exact ⟨rfl, rfl, .inr ⟨_, rfl, rfl, .inr here⟩⟩
        · cases held
  change (arena.string.2.setSticky arena.string.1).objects.getD index none = _ at held
  rw [Arena.string, Heap.setSticky, Heap.getD_objects_modify, withString, Heap.modifyFields,
    Heap.getD_objects_modify] at held
  split at held
  · next here =>
    obtain ⟨_, there, rfl⟩ := Option.map_eq_some_iff.mp held
    obtain ⟨⟨cls, hash, body, marked, sticky, monitor⟩, before, rfl⟩ :=
      Option.map_eq_some_iff.mp there
    obtain ⟨unmarked, -, ⟨_, body⟩ | ⟨slot, same, body, -⟩⟩ := origin before <;> cases body
    · exact ⟨unmarked, fun _ => here, bytes rfl⟩
    · refine ⟨unmarked, fun _ => here, string same rfl fun written => loses.value ?_⟩
      exact Option.some.inj ((Ref.ofSlot_toSlot _).symm.trans written)
  · next elsewhere =>
    obtain ⟨unmarked, dropped, names⟩ := origin held
    refine ⟨unmarked, fun kept => Bool.noConfusion (dropped.symm.trans kept), ?_⟩
    obtain ⟨_, body⟩ | ⟨slot, same, body, rfl | here⟩ := names
    · exact bytes body
    · exact string same body (by rintro ⟨⟩)
    · exact absurd here elsewhere

/-- Nor does anything else that is kept. -/
theorem not_names : ¬arena.half.Names lost := by
  intro named
  cases named with
  | pending held =>
      rcases List.mem_cons.mp held with rfl | held
      · exact loses.string rfl
      · exact loses.value (List.mem_singleton.mp held).symm
  | pinned held => exact loses.pinned held
  | @sticky index object here kept =>
      have held := (Array.getD_eq_getD_getElem? ..).trans (congrArg (Option.getD · none) here)
      refine loses.string ?_
      rw [(loses.of_held held).2.1 kept, Ref.ofIndex_index]
  | interned canonical =>
      have canonical := Std.HashMap.getElem?_insert.symm.trans canonical
      split at canonical
      · exact loses.string (Option.some.inj canonical)
      · cases Std.HashMap.getElem?_empty.symm.trans canonical
  | cls linked held =>
      have references : arena.half.registry.classes.toList.flatMap Class.references =
          ([0, 1] : List UInt16).filterMap fun slot =>
            ((Fields.ofSize 2).write 0 (.ref (some arena.string.1))).getRef slot.toNat :=
        (List.append_nil _).trans (List.append_nil _)
      have member := List.mem_flatMap.mpr
        ⟨_, Array.mem_toList_iff.mpr linked, (Class.mem_references _ _).mpr held⟩
      rw [references] at member
      obtain ⟨slot, traced, held⟩ := List.mem_filterMap.mp member
      rcases List.mem_cons.mp traced with rfl | traced
      · exact loses.string (Option.some.inj ((Ref.ofSlot_toSlot _).symm.trans held))
      · cases List.mem_singleton.mp traced
        cases held
  | outOfMemory held => cases held
  | running held =>
      have nothing : arena.half.exec.roots = [] := rfl
      cases nothing ▸ (Execution.mem_roots _ _).mpr held
  | parked waits held =>
      cases List.mem_singleton.mp waits
      have nothing : ((Execution.idle 2 64).enter guardedMethod ⟨⟨2⟩, 0⟩ 0 0).roots = [] := rfl
      cases nothing ▸ (Execution.mem_roots _ _).mpr held
  | completed kept => cases kept

/-- So a collection takes it. -/
theorem get?_collected : arena.half.collectGarbage.2.heap.get? lost = none := by
  have unmarked : arena.half.heap.Unmarked :=
    Heap.unmarked_of_held fun held => (loses.of_held held).1
  cases found : arena.half.collectGarbage.2.heap.get? lost with
  | none => rfl
  | some object =>
      obtain ⟨-, reached⟩ := (get?_collectGarbage unmarked lost object).mp found
      cases reached with
      | root named => exact absurd named loses.not_names
      | edge _ live held => exact absurd held (loses.of_held live).2.2

/-- The collection comes before the second string is built. -/
theorem exists_waits (statics : Fields) : ∃ after,
    Waits (Bounds.reentry {}) (calling (lateClass statics) arena.heap {}) after ∧
      after.monitor? (.object lost) ≠ some ⟨2, 1⟩ := by
  have room : arena.heap.usedBytes + 128 ≤ arena.heap.limit :=
    Nat.add_le_add_right (Nat.le_add_right _ _) 128
  have built : Guest.newString "" (calling lateBlank arena.heap {}) =
      .ok arena.string.1 (calling lateBlank arena.string.2 {}) := by
    refine run_newString_calling rfl rfl (run_collectIfDue 16 _) (decide_eq_true ?_) rfl
      (decide_eq_true ?_)
    · change arena.heap.usedBytes + 16 ≤ arena.heap.limit
      omega
    · change arena.heap.usedBytes + 16 + 24 ≤ arena.heap.limit
      omega
  let swept := arena.half.heap.swept arena.half.marks
  have collected : arena.half.collectGarbage.2 = lateHalf swept arena.string.1 := by
    rw [collectGarbage_eq]
    rfl
  have rebuilt : Guest.newString "a" arena.half = .ok (withString swept [0x61]).1
      (lateHalf (withString swept [0x61]).2 arena.string.1) := by
    have less : swept.usedBytes ≤ arena.heap.usedBytes + 16 + 24 := Nat.sub_le _ _
    refine run_newString_calling rfl rfl ((run_collectIfDue 17 _).trans
      (congrArg (EStateM.Result.ok PUnit.unit) collected)) (decide_eq_true ?_) rfl (decide_eq_true ?_)
    · change swept.usedBytes + 17 ≤ arena.heap.limit
      omega
    · change swept.usedBytes + 17 + 24 ≤ arena.heap.limit
      omega
  have gone := loses.get?_collected
  rw [collected] at gone
  exact ⟨_, waits_calling built rebuilt statics, monitor?_ready gone⟩

end Loses

end Arena

end Machine

end Jvm
