import Jvm.Proofs.Locking.Interleaving
import Jvm.Proofs.Changing.Caching

/-!
# The two locks of a class

Calls of static synchronized methods take the lock of the class itself. A block that is
synchronized on the class object takes the lock of that object, which is another one. Each
of the two keeps all executions out but the one that holds it, however executions are
interleaved; neither keeps anybody from taking the other.
-/

namespace Jvm

namespace Machine

variable {machine : Machine}

/-! ## What a lock answers -/

/-- A lock that another execution holds is refused, and nothing changes. -/
theorem enterLock_of_strange {lock : Lock} {monitor : Monitor} {other : ExecId}
    (found : machine.monitor? lock = some monitor) (held : monitor.heldBy other = true)
    (differs : other ≠ machine.exec.id) : machine.enterLock lock = (false, machine) := by
  have refused := Monitor.enter_of_strange held differs
  simp only [enterLock, found, refused]

/-- A lock that is free, or the running execution's own, is taken once more, and no other. -/
theorem enterLock_of_own {lock : Lock} (linked : lock.Linked machine.registry.toClassTable)
    {monitor : Monitor} (found : machine.monitor? lock = some monitor)
    (own : monitor.count = 0 ∨ monitor.heldBy machine.exec.id = true) :
    ∃ after, machine.enterLock lock = (true, after) ∧
      after.monitor? lock = some ⟨machine.exec.id, monitor.count + 1⟩ ∧
      ∀ other, other ≠ lock → after.monitor? other = machine.monitor? other := by
  have admits : monitor.enter machine.exec.id = some ⟨machine.exec.id, monitor.count + 1⟩ :=
    if_pos (own.imp id fun held => (Monitor.heldBy_iff.mp held).2)
  refine ⟨machine.setMonitor ⟨machine.exec.id, monitor.count + 1⟩ lock, ?_, ?_, ?_⟩
  · simp only [enterLock, found, admits]
  · rw [monitor?_setMonitor_self machine linked, found]
    rfl
  · exact fun other differs => monitor?_setMonitor_of_ne machine differs.symm _

/-- A call that is refused its lock waits, and nothing changes. -/
theorem invoke_of_refused {method : MethodId} {lock : Lock}
    (concrete : (machine.method method).isAbstract = false)
    (locked : Guest.callLock? machine method = some lock)
    (refused : machine.enterLock lock = (false, machine)) (reentry : Reentry)
    (callerPc returnPc : UInt32) :
    Guest.invoke reentry method callerPc returnPc machine = .ok .blocked machine := by
  have waits : Guest.takeLock (Guest.callLock? machine method) machine = .ok false machine := by
    rw [locked]
    simp only [Guest.takeLock, Guest.enterLock, run_modifyGet, refused]
  simp only [Guest.invoke, bind, EStateM.bind, run_get, concrete, waits, Bool.false_eq_true,
    if_false, Bool.not_false, if_true, pure, EStateM.pure]

/-- A call that needs the lock of another execution waits, and nothing changes. -/
theorem invoke_of_strange {id : ClassId} {method : MethodId} {other : ExecId}
    (takes : machine.registry.takesLock id method = true)
    (concrete : (machine.method method).isAbstract = false)
    (held : (machine.cls id).monitor.heldBy other = true) (differs : other ≠ machine.exec.id)
    (reentry : Reentry) (callerPc returnPc : UInt32) :
    Guest.invoke reentry method callerPc returnPc machine = .ok .blocked machine := by
  have locked : Guest.callLock? machine method = some (.cls id) :=
    (machine.lockOf?_eq_cls_iff method _ id).mpr takes
  exact invoke_of_refused concrete locked (enterLock_of_strange rfl held differs) reentry callerPc
    returnPc

/-- A block that is refused its lock waits, and nothing changes. -/
theorem enterMonitor_of_refused {ref : Ref} (operand : machine.exec.stack.peekRef 0 = some ref)
    (refused : machine.enterLock (.object ref) = (false, machine)) (next : UInt32) :
    Guest.enterMonitor next machine = .ok .blocked machine := by
  simp only [Guest.enterMonitor, bind, EStateM.bind, run_get, operand, Guest.enterLock,
    run_modifyGet, refused, Bool.false_eq_true, if_false, pure, EStateM.pure]

/-- A block that needs the lock of another execution waits, and nothing changes. -/
theorem enterMonitor_of_strange {ref : Ref} {monitor : Monitor} {other : ExecId}
    (operand : machine.exec.stack.peekRef 0 = some ref)
    (found : machine.monitor? (.object ref) = some monitor) (held : monitor.heldBy other = true)
    (differs : other ≠ machine.exec.id) (next : UInt32) :
    Guest.enterMonitor next machine = .ok .blocked machine :=
  enterMonitor_of_refused operand (enterLock_of_strange found held differs) next

/-! ## Who holds a lock -/

/-- A machine starts with no frames, so nobody needs a lock. -/
theorem guarded_of_start {config : Config} {classes : ClassPath}
    (bounded : config.stackSlots ≤ FrameContext.encodablePositions)
    (started : start config classes = .ok machine) : machine.Guarded := by
  obtain ⟨balanced, -⟩ := balanced_of_start started
  obtain ⟨idle, alone⟩ := idle_of_start bounded started
  refine ⟨sound_of_start bounded started, balanced.toAccounted, ?_, ?_⟩
  · rw [executions, alone]
    exact List.nodup_singleton _
  · intro _ _ exec member id
    rw [executions, alone] at member
    rw [List.mem_singleton.mp member, nesting, Execution.methods_of_idle idle]
    exact Nat.zero_le _

namespace Guarded

variable (guarded : machine.Guarded)

include guarded

theorem eq_of_id {exec other : Execution} (member : exec ∈ machine.executions)
    (member' : other ∈ machine.executions) (same : other.id = exec.id) : other = exec :=
  List.inj_on_of_nodup_map guarded.distinct member' member same

/-- An execution that waits is not the running one. -/
theorem id_ne_of_parked {exec : Execution} (waits : exec ∈ machine.parked) :
    exec.id ≠ machine.exec.id := by
  intro same
  have apart : machine.exec.id ∉ machine.parked.map (·.id) :=
    (List.nodup_cons.mp guarded.distinct).1
  exact apart (List.mem_map.mpr ⟨exec, waits, same⟩)

/-- Who is in a static synchronized method of a class holds the lock of the class. -/
theorem heldBy_of_nesting (fit : machine.registry.Fit) (unlocked : machine.registry.Unlocked)
    {exec : Execution} (member : exec ∈ machine.executions) {id : ClassId}
    (inside : 0 < machine.nesting exec id) : (machine.cls id).monitor.heldBy exec.id = true :=
  Monitor.heldBy_of_depth_pos
    (Nat.lt_of_lt_of_le inside (guarded.held fit unlocked exec member id))

/-- At most one execution is in static synchronized methods of a class. -/
theorem eq_of_nesting (fit : machine.registry.Fit) (unlocked : machine.registry.Unlocked)
    {exec other : Execution} (member : exec ∈ machine.executions)
    (member' : other ∈ machine.executions) {id : ClassId}
    (inside : 0 < machine.nesting exec id) (inside' : 0 < machine.nesting other id) :
    other = exec :=
  guarded.eq_of_id member member' (Monitor.eq_of_heldBy
    (guarded.heldBy_of_nesting fit unlocked member' inside')
    (guarded.heldBy_of_nesting fit unlocked member inside))

end Guarded

/-! ## Locks that exclude -/

/-- Whether a lock keeps all executions out but the one that holds it. -/
structure Excludes (bounds : Bounds) (machine : Machine) (lock : Lock) (monitor : Monitor) :
    Prop where
  /-- It has one holder at most. -/
  only : ∀ exec ∈ machine.executions, ∀ other ∈ machine.executions,
    monitor.heldBy exec.id = true → monitor.heldBy other.id = true → other = exec
  /-- The running execution does not get it from one that waits. -/
  refuses : ∀ exec ∈ machine.parked, monitor.heldBy exec.id = true →
    machine.enterLock lock = (false, machine)
  /-- One that waits has it as before for as long as it waits. -/
  keeps : ∀ exec ∈ machine.parked, monitor.heldBy exec.id = true → ∀ later,
    Relation.ReflTransGen (Awaits bounds exec.id) machine later →
      later.monitor? lock = some monitor
  /-- The running execution gets it if it is free or its own, and other locks stay. -/
  admits : monitor.count = 0 ∨ monitor.heldBy machine.exec.id = true →
    ∃ after, machine.enterLock lock = (true, after) ∧
      after.monitor? lock = some ⟨machine.exec.id, monitor.count + 1⟩ ∧
      ∀ other, other ≠ lock → after.monitor? other = machine.monitor? other

theorem Guarded.excludes (guarded : machine.Guarded) (bounds : Bounds) {lock : Lock}
    (lasts : lock.Lasts machine) {monitor : Monitor} (found : machine.monitor? lock = some monitor) :
    machine.Excludes bounds lock monitor where
  only _ member _ member' held held' :=
    guarded.eq_of_id member member' (Monitor.eq_of_heldBy held' held)
  refuses _ waits held := enterLock_of_strange found held (guarded.id_ne_of_parked waits)
  keeps _ _ held _ run := (guarded.spares_of_awaited run).1 lock monitor lasts found held
  admits own := enterLock_of_own lasts.linked found own

/-- Each of the two locks of a class keeps executions out. Machines start guarded. Whatever
a guarded machine comes to by executions that take turns: who is in a static synchronized
method of a class holds the lock of the class, and is alone there; the lock of a class and
that of its class object each exclude others; and who calls such a method, or comes to such
a block, while another execution that waits holds the lock in question waits as well. -/
theorem class_locks_exclude (bounds : Bounds) :
    (∀ (config : Config) (classes : ClassPath) (machine : Machine),
        config.stackSlots ≤ FrameContext.encodablePositions →
        Machine.start config classes = .ok machine → machine.Guarded) ∧
      ∀ start machine : Machine, start.Guarded →
        Relation.ReflTransGen (Interleaves bounds) start machine →
        (machine.registry.Fit → machine.registry.Unlocked →
          ∀ id, ∀ exec ∈ machine.executions, 0 < machine.nesting exec id →
            (machine.cls id).monitor.heldBy exec.id = true ∧
              ∀ other ∈ machine.executions, 0 < machine.nesting other id → other = exec) ∧
          (∀ lock : Lock, lock.Lasts machine → ∀ monitor, machine.monitor? lock = some monitor →
            machine.Excludes bounds lock monitor) ∧
          (∀ id method, machine.registry.takesLock id method = true →
            (machine.method method).isAbstract = false → ∀ exec ∈ machine.parked,
            (machine.cls id).monitor.heldBy exec.id = true →
            ∀ reentry callerPc returnPc,
              Guest.invoke reentry method callerPc returnPc machine = .ok .blocked machine) ∧
          ∀ ref monitor, machine.exec.stack.peekRef 0 = some ref →
            machine.monitor? (.object ref) = some monitor → ∀ exec ∈ machine.parked,
            monitor.heldBy exec.id = true →
            ∀ next, Guest.enterMonitor next machine = .ok .blocked machine := by
  refine ⟨fun _ _ _ bounded started => guarded_of_start bounded started, ?_⟩
  intro start machine starts run
  have guarded := starts.of_interleaved run
  refine ⟨?_, fun _ lasts _ found => guarded.excludes bounds lasts found, ?_, ?_⟩
  · intro fit unlocked id exec member inside
    exact ⟨guarded.heldBy_of_nesting fit unlocked member inside,
      fun _ member' inside' => guarded.eq_of_nesting fit unlocked member member' inside inside'⟩
  · intro id method takes concrete exec waits held reentry callerPc returnPc
    exact invoke_of_strange takes concrete held (guarded.id_ne_of_parked waits) reentry callerPc
      returnPc
  · intro ref monitor operand found exec waits held next
    exact enterMonitor_of_strange operand found held (guarded.id_ne_of_parked waits) next

/-! ## Two executions at the locks of a class -/

/-- A static synchronized method that does nothing. -/
def guardedMethod : Method :=
  { nullary #[0xB1] with name := "h", flags := Access.isStatic ||| Access.isSynchronized }

/-- An execution in the static synchronized method. -/
def holder : Execution := (Execution.idle 2 64).enter guardedMethod ⟨⟨0⟩, 0⟩ 0 0

/-- A class whose lock that execution has taken, besides its class object. -/
def contendedTable : ClassTable :=
  (within #[0xC2] [guardedMethod]).registry.toClassTable.modify ⟨0⟩ fun cls =>
    { cls with mirror := some (Ref.ofIndex 0), monitor := ⟨2, 1⟩ }

/-- A machine about to enter the monitor of the class object, while the other execution
waits. -/
def contended (monitor : Monitor) : Machine where
  config := {}
  registry := { toClassTable := contendedTable }
  known := default
  heap := { Heap.ofConfig {} with
    objects := #[some { cls := ⟨0⟩, hash := 1, body := .instance (Fields.ofSize 0), monitor }]
    usedBytes := 16 }
  exec :=
    let entered := (within #[0xC2] [guardedMethod]).exec
    { entered with stack := entered.stack.pushRef (some (Ref.ofIndex 0)) }
  parked := [holder]
  nextExec := 3

theorem has_contended {id : ClassId} (known : contendedTable.Has id) : id = ⟨0⟩ := by
  obtain ⟨index⟩ := id
  cases Nat.lt_one_iff.mp known
  rfl

section

variable (monitor : Monitor)

theorem grows_contended : (within #[0xC2] [guardedMethod]).registry.GrowsTo contendedTable :=
  ClassTable.growsTo_modify ⟨0⟩ ⟨rfl, rfl, rfl, rfl, rfl⟩

theorem closed_contended : (contended monitor).Closed := by
  have closed := closed_within #[0xC2] [guardedMethod]
  have first : contendedTable.Has ⟨0⟩ := Nat.one_pos
  refine ⟨⟨?_, ?_⟩, ⟨first, first, first, first, first, first, first⟩, ?_⟩
  · exact closed.registry.table.modify ⟨0⟩ ⟨rfl, rfl, rfl, rfl, rfl⟩ fun _ _ => trivial
  · intro key target held
    cases Std.HashMap.getElem?_empty.symm.trans held
  · intro index object held
    match index with
    | 0 =>
        cases held
        exact first
    | index + 1 => cases held

theorem accounted_contended : (contended monitor).heap.Accounted where
  unmarked
    | 0 | _ + 1 => rfl
  mem_free index := by
    match index with
    | 0 => exact ⟨fun free => absurd free List.not_mem_nil, fun ⟨_, dead⟩ => Bool.noConfusion dead⟩
    | index + 1 =>
        exact ⟨fun free => absurd free List.not_mem_nil,
          fun ⟨inside, _⟩ => absurd inside (Nat.not_lt_of_le (Nat.succ_le_succ (Nat.zero_le _)))⟩
  nodup_free := List.nodup_nil
  charged := by rfl

theorem stands_contended :
    (contended monitor).exec.Stands contendedTable [(3, ⟨none, 0, 0, 0⟩)] := by
  have stands := (stands_within #[0xC2] [guardedMethod]).grow grows_contended
  refine stands.keep rfl rfl rfl ?_
  exact fun _ _ room => Stack.keeps_pushRef room (some (Ref.ofIndex 0))

theorem stands_holder : holder.Stands contendedTable [(3, ⟨none, 0, 0, 0⟩)] := by
  have idle : (Execution.idle 2 64).Stands contendedTable [] :=
    Execution.stands_of_idle rfl rfl (by decide)
  have linked : contendedTable.HasMethod ⟨⟨0⟩, 0⟩ := by
    refine ⟨Nat.one_pos, ?_⟩
    decide
  have enters := @Execution.Stands.enter _ _ _ idle guardedMethod _ linked
  rw [show guardedMethod.frameArgSlots = 0 from frameArgSlots_nullary #[0xB1]] at enters
  refine enters (Nat.zero_le 0) (Nat.zero_le 64) ?_ ?_ 0 0
  · rintro _ ⟨⟩
  · rintro _ ⟨⟩

theorem sound_contended : (contended monitor).Sound where
  closed := closed_contended monitor
  bounded := by
    change 64 * 1024 ≤ FrameContext.encodablePositions
    decide
  stands _ exec member := by
    rcases List.mem_cons.mp member with rfl | waits
    · rw [(stands_contended monitor).saved_eq]
      exact stands_contended monitor
    · cases List.mem_singleton.mp waits
      rw [stands_holder.saved_eq]
      exact stands_holder

theorem nesting_contended (id : ClassId) :
    (contended monitor).nesting (contended monitor).exec id = 0 := by
  have methods : (contended monitor).exec.methods = [⟨⟨0⟩, 1⟩] :=
    (stands_contended monitor).methods_eq
  have unsynchronized : (contendedTable.method ⟨⟨0⟩, 1⟩).isSynchronized = false := by decide
  have free : contendedTable.takesLock id ⟨⟨0⟩, 1⟩ = false := by
    rw [ClassTable.takesLock, unsynchronized, Bool.false_and, Bool.false_and]
  change (contended monitor).exec.methods.countP (contendedTable.takesLock id) = 0
  rw [methods, List.countP_cons, free]
  rfl

theorem nesting_holder (id : ClassId) :
    (contended monitor).nesting holder id = if (⟨0⟩ : ClassId) = id then 1 else 0 := by
  have methods : holder.methods = [⟨⟨0⟩, 0⟩] := stands_holder.methods_eq
  have locked : ((contendedTable.method ⟨⟨0⟩, 0⟩).isSynchronized &&
      (contendedTable.method ⟨⟨0⟩, 0⟩).isStatic) = true := by decide
  have takes : contendedTable.takesLock id ⟨⟨0⟩, 0⟩ = ((⟨0⟩ : ClassId) == id) := by
    rw [ClassTable.takesLock, locked, Bool.true_and]
  change holder.methods.countP (contendedTable.takesLock id) = _
  rw [methods, List.countP_cons, takes, List.countP_nil, Nat.zero_add]
  simp only [beq_iff_eq]

theorem guarded_contended : (contended monitor).Guarded where
  sound := sound_contended monitor
  accounted := accounted_contended monitor
  distinct := by
    change [Execution.mainId, 2].Nodup
    decide
  held _ _ exec member id := by
    rcases List.mem_cons.mp member with rfl | waits
    · rw [nesting_contended]
      exact Nat.zero_le _
    · cases List.mem_singleton.mp waits
      rw [nesting_holder]
      split
      · next same =>
          subst same
          exact Nat.le_refl 1
      · exact Nat.zero_le _

theorem initializer?_contended : (contendedTable.get ⟨0⟩).initializer? = none := by
  decide +kernel

theorem fit_contended : (contended monitor).registry.Fit := by
  refine ⟨Nat.le_of_ble_eq_true rfl, ?_⟩
  intro id method inside found
  cases has_contended inside
  cases initializer?_contended.symm.trans found

theorem unlocked_contended : (contended monitor).registry.Unlocked := by
  intro id method known found
  cases has_contended known
  cases initializer?_contended.symm.trans found

/-- Neither the running execution nor one that is yet to come holds the lock of the class. -/
theorem roomy_contended {exec : ExecId} (differs : exec ≠ 2) : (contended monitor).Roomy exec := by
  intro id
  by_cases known : contendedTable.Has id
  · cases has_contended known
    have strange : (⟨2, 1⟩ : Monitor).heldBy exec = false := by
      simp [Monitor.heldBy, differs.symm]
    change (⟨2, 1⟩ : Monitor).depth exec + 1 < UInt32.size
    rw [Monitor.depth, strange]
    decide
  · have none : contendedTable.get id = default := by
      rw [ClassTable.get, Array.getD_eq_getD_getElem?,
        Array.getElem?_eq_none (Nat.le_of_not_lt known)]
      rfl
    change (contendedTable.get id).monitor.depth exec + 1 < UInt32.size
    rw [none]
    exact Nat.lt_of_le_of_lt (Nat.le_refl 1) (by decide)

theorem welcomes_contended : (contended monitor).Welcomes where
  fresh exec member := by
    rcases List.mem_cons.mp member with rfl | waits
    · change Execution.mainId ≠ 3
      decide
    · cases List.mem_singleton.mp waits
      change (2 : ExecId) ≠ 3
      decide
  roomy := roomy_contended monitor (show (3 : ExecId) ≠ 2 by decide)

/-- A step after which one execution waits does not make room for another one. -/
theorem interleaves_contended {bounds : Bounds} {after : Machine}
    (evolves : Evolves bounds (contended monitor) after) (parked : after.parked = [holder])
    (accounted : after.heap.Accounted) : Interleaves bounds (contended monitor) after where
  evolves := evolves
  roomy := roomy_contended monitor (show Execution.mainId ≠ 2 by decide)
  welcomes := welcomes_contended monitor
  yields := by
    rintro id same rfl
    subst same
    cases parked
  accounted _ := accounted

end

theorem class_locks_exclude_contended :
    (contended ⟨2, 1⟩).Guarded ∧ 0 < (contended ⟨2, 1⟩).nesting holder ⟨0⟩ ∧
      ((contended ⟨2, 1⟩).cls ⟨0⟩).monitor.heldBy 2 = true ∧
      ((contended ⟨2, 1⟩).modifyExec Execution.reset).monitor? (.object (Ref.ofIndex 0)) =
        some ⟨2, 1⟩ ∧
      Guest.invoke (Bounds.reentry {}) ⟨⟨0⟩, 0⟩ 0 1 (contended ⟨2, 1⟩) =
        .ok .blocked (contended ⟨2, 1⟩) ∧
      Guest.enterMonitor 1 (contended ⟨2, 1⟩) = .ok .blocked (contended ⟨2, 1⟩) := by
  have guarded := guarded_contended ⟨2, 1⟩
  have waits : holder ∈ (contended ⟨2, 1⟩).parked := .head _
  have mirror : (Lock.object (Ref.ofIndex 0)).Lasts (contended ⟨2, 1⟩) := ⟨⟨0⟩, Nat.one_pos, rfl⟩
  have awaits : Awaits {} 2 (contended ⟨2, 1⟩) ((contended ⟨2, 1⟩).modifyExec Execution.reset) :=
    ⟨interleaves_contended _ .reset rfl (accounted_contended _), holder, waits, rfl⟩
  have inside : 0 < (contended ⟨2, 1⟩).nesting holder ⟨0⟩ := by
    rw [nesting_holder]
    decide
  obtain ⟨alone, excludes, calls, blocks⟩ :=
    (class_locks_exclude {}).2 _ _ guarded .refl
  obtain ⟨held, -⟩ := alone (fit_contended _) (unlocked_contended _) ⟨0⟩ holder (.tail _ waits) inside
  refine ⟨guarded, inside, held, ?_, ?_, ?_⟩
  · exact (excludes _ mirror ⟨2, 1⟩ rfl).keeps holder waits rfl _ (.single awaits)
  · exact calls ⟨0⟩ ⟨⟨0⟩, 0⟩ (by decide) (by decide) holder waits held _ 0 1
  · exact blocks (Ref.ofIndex 0) ⟨2, 1⟩ rfl rfl holder waits rfl 1

/-- The machine in which the running execution has entered the monitor. -/
def entered : Machine :=
  ((contended .free).countStep.setMonitor ⟨Execution.mainId, 1⟩ (.object (Ref.ofIndex 0))).modifyExec
    fun exec => { exec with stack := exec.stack.discard 1, pc := 1 }

set_option maxRecDepth 4000 in
theorem runStep_contended (reentry : Reentry) :
    Host.runStep reentry (contended .free) = .ok none entered := by
  rfl

set_option maxRecDepth 4000 in
theorem ready_contended : (contended .free).Ready := by
  intro _
  have asks : Guest.demand ((contended .free).modifyHeap Heap.clearPending) =
      .ok 1 (contended .free) := rfl
  refine Ends.of_ok asks fun _ _ => ?_
  decide

theorem interleaves_entered : Interleaves {} (contended .free) entered := by
  have runs := runStep_contended
  have evolves : Evolves {} (contended .free) entered :=
    .step ready_contended ((runs _).trans (runs _).symm) (.inl ⟨none, runs _⟩)
  exact interleaves_contended .free evolves rfl (accounted_contended ⟨Execution.mainId, 1⟩)

/-- The two locks of a class do not exclude each other: while an execution is in a static
synchronized method of a class, another one enters a block that is synchronized on the class
object. -/
theorem class_locks_apart :
    ¬∀ (bounds : Bounds) (start machine : Machine), start.Guarded →
      Relation.ReflTransGen (Interleaves bounds) start machine →
      machine.registry.Fit → machine.registry.Unlocked →
      ∀ id ref monitor, (machine.cls id).mirror = some ref →
        machine.monitor? (.object ref) = some monitor →
        ∀ exec ∈ machine.executions, 0 < machine.nesting exec id →
          ∀ other ∈ machine.executions, monitor.heldBy other.id = true → other = exec := by
  intro claimed
  have same := claimed {} (contended .free) entered (guarded_contended .free)
    (.single interleaves_entered) (fit_contended .free) (unlocked_contended .free) ⟨0⟩
    (Ref.ofIndex 0) ⟨Execution.mainId, 1⟩ rfl rfl holder (.tail _ (.head _)) ?_ entered.exec
    (.head _) (by decide)
  · cases congrArg Execution.id same
  · rw [show entered.nesting holder ⟨0⟩ = (contended .free).nesting holder ⟨0⟩ from rfl,
      nesting_holder]
    decide

end Machine

end Jvm
