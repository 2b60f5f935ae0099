import Jvm.Proofs.Machine.Courses
import Jvm.Proofs.Machine.Sound

/-!
# Executions that change places

An execution that gets a slice, or that is created, becomes the running one for a while; the
one that ran before waits under its id and comes back afterwards. Unless its id was handed to
guest code it comes back as it was.
-/

namespace Jvm

/-!
## Executions that are set aside

While one execution goes on the others wait, each under an id of its own. Instructions leave
what waits alone, but for one: a thread that is started gets a new execution, on which its
method is called. A native method runs at once, with the initializers that its class still
needs, and while those run the threads that guest code has started get slices of their own.
-/

open Machine

namespace Machine

/-- The ids of the executions that run or wait. -/
def ids (machine : Machine) : List ExecId := machine.executions.map (·.id)

/-- The ids whose results wait. -/
def results (machine : Machine) : List ExecId := machine.completed.map (·.1)

/-- Whether there is an execution, or the result of one, under an id. -/
def Holds (machine : Machine) (id : ExecId) : Prop := id ∈ machine.ids ∨ id ∈ machine.results

/-- What waits under an id: an execution, or the result of one. -/
def waits (machine : Machine) (id : ExecId) : Option Execution × Option (ExecId × Value) :=
  (machine.parked.find? (·.id == id), machine.completed.find? (·.1 == id))

/-- Whether every id stands for one execution, and has been handed out already. -/
structure Numbered (machine : Machine) : Prop where
  distinct : machine.ids.Nodup
  ended : ∀ id ∈ machine.results, id ∉ machine.ids
  held : ∀ id, machine.Holds id → id < machine.nextExec
  threads : ∀ id ∈ machine.guestThreads, id < machine.nextExec

/-- How a machine changes while its running execution goes on, if some other executions have
had a slice. In rounds the threads that guest code had started may have had one, too. -/
structure Isolates (rounds : Prop) (sliced : List ExecId) (before after : Machine) : Prop where
  numbered : after.Numbered
  id : after.exec.id = before.exec.id
  handed : before.nextExec ≤ after.nextExec
  threads : ∀ id ∈ after.guestThreads, id ∈ before.guestThreads ∨ before.nextExec ≤ id
  spares : ∀ id < before.nextExec, id ∉ sliced → (rounds → id ∉ before.guestThreads) →
    after.waits id = before.waits id
  keeps : ∀ id ∈ after.guestThreads, id ∉ sliced → before.Holds id ∨ before.nextExec ≤ id →
    after.Holds id
  known : ∀ id < before.nextExec,
    (id ∈ after.ids → id ∈ before.ids) ∧ (id ∈ after.results → id ∈ before.results)

variable {rounds : Prop} {sliced : List ExecId} {before after first second third : Machine}

theorem mem_ids {machine : Machine} {id : ExecId} :
    id ∈ machine.ids ↔ id = machine.exec.id ∨ id ∈ machine.parked.map (·.id) :=
  List.mem_cons

namespace Numbered

variable {machine : Machine} (numbered : machine.Numbered)

include numbered

theorem current_lt : machine.exec.id < machine.nextExec :=
  numbered.held _ (.inl (mem_ids.mpr (.inl rfl)))

theorem nextExec_ne_zero : machine.nextExec ≠ 0 := by
  intro none
  have below := numbered.current_lt
  rw [none] at below
  exact UInt32.not_lt_zero below

theorem current_notMem_parked : machine.exec.id ∉ machine.parked.map (·.id) :=
  (List.nodup_cons.mp numbered.distinct).1

theorem current_notMem_results : machine.exec.id ∉ machine.results :=
  fun member => numbered.ended _ member (mem_ids.mpr (.inl rfl))

end Numbered

/-- Nothing waits under an id that no execution and no result has. -/
theorem waits_eq_none {machine : Machine} {id : ExecId} (parked : id ∉ machine.parked.map (·.id))
    (results : id ∉ machine.results) : machine.waits id = (none, none) := by
  refine Prod.ext ?_ ?_
  · refine List.find?_eq_none.mpr fun exec member same => parked ?_
    exact List.mem_map.mpr ⟨exec, member, beq_iff_eq.mp same⟩
  · refine List.find?_eq_none.mpr fun result member same => results ?_
    exact List.mem_map.mpr ⟨result, member, beq_iff_eq.mp same⟩

theorem Numbered.waits_current {machine : Machine} (numbered : machine.Numbered) :
    machine.waits machine.exec.id = (none, none) :=
  waits_eq_none numbered.current_notMem_parked numbered.current_notMem_results

namespace Aside

variable (aside : before.Aside after)

include aside

theorem ids : after.ids = before.ids := by
  rw [Machine.ids, Machine.ids, executions, executions, List.map_cons, List.map_cons, aside.id,
    aside.parked]

theorem results : after.results = before.results := by
  rw [Machine.results, Machine.results, aside.completed]

theorem holds {id : ExecId} : after.Holds id ↔ before.Holds id := by
  rw [Holds, Holds, aside.ids, aside.results]

theorem numbered (numbered : before.Numbered) : after.Numbered where
  distinct := by
    rw [aside.ids]
    exact numbered.distinct
  ended := by
    rw [aside.ids, aside.results]
    exact numbered.ended
  held id held := by
    rw [aside.nextExec]
    exact numbered.held id (aside.holds.mp held)
  threads := by
    rw [aside.guestThreads, aside.nextExec]
    exact numbered.threads

theorem isolates (numbered : before.Numbered) : Isolates rounds [] before after where
  numbered := aside.numbered numbered
  id := aside.id
  handed := by rw [aside.nextExec]; exact UInt32.le_refl _
  threads id member := .inl (aside.guestThreads ▸ member)
  spares id _ _ _ := by rw [waits, waits, aside.parked, aside.completed]
  keeps id member _ held := by
    refine aside.holds.mpr (held.resolve_right fun fresh => ?_)
    have below := numbered.threads id (aside.guestThreads ▸ member)
    exact UInt32.not_lt.mpr fresh below
  known id _ := by rw [aside.ids, aside.results]; exact ⟨fun member => member, fun member => member⟩

end Aside

theorem Numbered.isolates_refl {machine : Machine} (numbered : machine.Numbered) :
    Isolates rounds [] machine machine :=
  Aside.isolates ⟨rfl, rfl, rfl, rfl, rfl⟩ numbered

theorem Isolates.trans (left : Isolates rounds sliced first second)
    (right : Isolates rounds [] second third) : Isolates rounds sliced first third where
  numbered := right.numbered
  id := right.id.trans left.id
  handed := UInt32.le_trans left.handed right.handed
  threads id member := by
    rcases right.threads id member with old | fresh
    · exact left.threads id old
    · exact .inr (UInt32.le_trans left.handed fresh)
  spares id below apart other := by
    have later : rounds → id ∉ second.guestThreads := fun runs member =>
      (left.threads id member).elim (other runs) fun fresh => UInt32.not_lt.mpr fresh below
    rw [right.spares id (UInt32.lt_of_lt_of_le below left.handed) List.not_mem_nil later,
      left.spares id below apart other]
  keeps id member apart held := by
    refine right.keeps id member List.not_mem_nil ?_
    rcases right.threads id member with old | fresh
    · exact .inl (left.keeps id old apart held)
    · exact .inr fresh
  known id below := by
    have later := right.known id (UInt32.lt_of_lt_of_le below left.handed)
    have early := left.known id below
    exact ⟨fun member => early.1 (later.1 member), fun member => early.2 (later.2 member)⟩

/-- What waits is left alone, but for the threads that guest code has started if those get
slices meanwhile. -/
def isolation (rounds : Prop) : Course where
  meant := Numbered
  moves := Isolates rounds []
  trans := Isolates.trans
  kept isolates := isolates.numbered
  inside numbered inside := inside.toAside.isolates numbered
  notes numbered _ := Aside.isolates ⟨rfl, rfl, rfl, rfl, rfl⟩ numbered
  marks numbered _ _ := Aside.isolates ⟨rfl, rfl, rfl, rfl, rfl⟩ numbered

/-- Whether a step leaves what waits alone. -/
abbrev Isolating (rounds : Prop) {ε α : Type} (step : EStateM ε Machine α) : Prop :=
  (isolation rounds).Follows step

end Machine

end Jvm

/-! ## Executions that change places -/

namespace Jvm

open Machine

namespace Machine

variable {rounds : Prop} {machine resumed after left : Machine} {id : ExecId}

/-- How a machine changes when the execution of an id becomes the running one. -/
structure BringsIn (id : ExecId) (machine resumed : Machine) : Prop where
  numbered : resumed.Numbered
  current : resumed.exec.id = id
  waiting : resumed.parked.find? (·.id == machine.exec.id) = some machine.exec
  differs : id ≠ machine.exec.id
  ids : ∀ other ≠ id, other ∈ resumed.ids ↔ other ∈ machine.ids
  waits : ∀ other ≠ id, other ≠ machine.exec.id → resumed.waits other = machine.waits other
  results : resumed.results = machine.results
  threads : resumed.guestThreads = machine.guestThreads
  handed : machine.nextExec ≤ resumed.nextExec
  fresh : ∀ other ≠ id, machine.nextExec ≤ other → resumed.nextExec ≤ other

/-- An execution that is brought back is the one that waits, if it still does. -/
theorem switchBack_eq (machine : Machine) (id : ExecId) : ∃ exec : Execution, exec.id = id ∧
    machine.switchBack id = (machine.exec, { machine with
      exec, parked := machine.parked.filter (·.id ≠ id) }) ∧
    ∀ waiting, machine.parked.find? (·.id == id) = some waiting → exec = waiting := by
  rw [switchBack, unpark]
  cases found : machine.parked.find? (·.id == id) with
  | some exec =>
      refine ⟨exec, ?_, rfl, fun waiting same => Option.some.inj same⟩
      exact beq_iff_eq.mp (List.find?_some found :)
  | none =>
      refine ⟨Execution.idle id machine.config.stackSlots, rfl, ?_, by rintro _ ⟨⟩⟩
      have all : machine.parked.filter (·.id ≠ id) = machine.parked := by
        refine List.filter_eq_self.mpr fun exec member => decide_eq_true fun same => ?_
        exact List.find?_eq_none.mp found exec member (beq_iff_eq.mpr same)
      rw [all]
      rfl

section

variable (machine : Machine) (id : ExecId)

theorem fst_switchBack : (machine.switchBack id).1 = machine.exec := by
  obtain ⟨exec, -, same, -⟩ := machine.switchBack_eq id
  rw [same]

theorem nextExec_switchBack : (machine.switchBack id).2.nextExec = machine.nextExec := by
  obtain ⟨exec, -, same, -⟩ := machine.switchBack_eq id
  rw [same]

theorem guestThreads_switchBack :
    (machine.switchBack id).2.guestThreads = machine.guestThreads := by
  obtain ⟨exec, -, same, -⟩ := machine.switchBack_eq id
  rw [same]

end

/-- What waits under another id is found as before once an execution is taken out. -/
theorem find?_filter_ne {executions : List Execution} {other : ExecId} (differs : other ≠ id) :
    (executions.filter (·.id ≠ id)).find? (·.id == other) =
      executions.find? (·.id == other) := by
  rw [List.find?_filter]
  congr 1
  funext exec
  by_cases same : exec.id = other
  · simp [same, differs]
  · simp [same]

theorem mem_map_filter_ne {executions : List Execution} {other : ExecId} :
    other ∈ (executions.filter (·.id ≠ id)).map (·.id) ↔
      other ∈ executions.map (·.id) ∧ other ≠ id := by
  simp only [List.mem_map, List.mem_filter, decide_eq_true_eq]
  constructor
  · rintro ⟨exec, ⟨member, differs⟩, rfl⟩
    exact ⟨⟨exec, member, rfl⟩, differs⟩
  · rintro ⟨⟨exec, member, rfl⟩, differs⟩
    exact ⟨exec, ⟨member, differs⟩, rfl⟩

namespace BringsIn

variable (brings : machine.BringsIn id resumed)

include brings

theorem holds {other : ExecId} (differs : other ≠ id) :
    resumed.Holds other ↔ machine.Holds other := by
  rw [Holds, Holds, brings.ids other differs, brings.results]

variable (isolates : Isolates rounds [] resumed after)

include isolates

/-- The execution that waited meanwhile has no result. -/
theorem current_notMem_results : machine.exec.id ∉ after.results := by
  have there : machine.exec.id ∈ resumed.ids :=
    (brings.ids _ brings.differs.symm).mpr (mem_ids.mpr (.inl rfl))
  have below := brings.numbered.held _ (.inl there)
  exact fun member => brings.numbered.ended _ ((isolates.known _ below).2 member) there

/-- An execution that had a slice and is not parked again is gone. -/
theorem not_holds_switchBack : ¬(after.switchBack machine.exec.id).2.Holds id := by
  obtain ⟨exec, named, same, -⟩ := after.switchBack_eq machine.exec.id
  have current : after.exec.id = id := isolates.id.trans brings.current
  simp only [same]
  rintro (held | result)
  · rcases List.mem_cons.mp held with itself | waits
    · exact brings.differs (itself.trans named)
    · exact isolates.numbered.current_notMem_parked (current ▸ (mem_map_filter_ne.mp waits).1)
  · exact isolates.numbered.current_notMem_results (current ▸ result)

/-- Unless it had a slice meanwhile, the execution that ran before is what it was. -/
theorem exec_switchBack (unlisted : rounds → machine.exec.id ∉ machine.guestThreads) :
    (after.switchBack machine.exec.id).2.exec = machine.exec := by
  obtain ⟨exec, -, same, found⟩ := after.switchBack_eq machine.exec.id
  have there : machine.exec.id ∈ resumed.ids :=
    (brings.ids _ brings.differs.symm).mpr (mem_ids.mpr (.inl rfl))
  have spared := isolates.spares _ (brings.numbered.held _ (.inl there)) List.not_mem_nil
    fun runs => brings.threads ▸ unlisted runs
  simp only [same]
  exact found machine.exec ((congrArg Prod.fst spared).trans brings.waiting)

variable (numbered : machine.Numbered)

include numbered

theorem numbered_switchBack : (after.switchBack machine.exec.id).2.Numbered := by
  obtain ⟨exec, named, same, -⟩ := after.switchBack_eq machine.exec.id
  simp only [same]
  have there : ∀ {other : ExecId},
      other ∈ (after.parked.filter (·.id ≠ machine.exec.id)).map (·.id) → other ∈ after.ids :=
    fun member => mem_ids.mpr (.inr (mem_map_filter_ne.mp member).1)
  refine ⟨?_, ?_, ?_, isolates.numbered.threads⟩
  · refine List.nodup_cons.mpr ⟨fun member => ?_, ?_⟩
    · exact (mem_map_filter_ne.mp member).2 named
    · have parked : (after.parked.map (·.id)).Nodup :=
        (List.nodup_cons.mp isolates.numbered.distinct).2
      exact parked.sublist (List.filter_sublist.map fun exec : Execution => exec.id)
  · intro other result held
    rcases List.mem_cons.mp held with rfl | waits
    · exact brings.current_notMem_results isolates (named ▸ result)
    · exact isolates.numbered.ended other result (there waits)
  · rintro other (held | result)
    · rcases List.mem_cons.mp held with rfl | waits
      · refine UInt32.lt_of_lt_of_le ?_ (UInt32.le_trans brings.handed isolates.handed)
        exact named ▸ numbered.current_lt
      · exact isolates.numbered.held other (.inl (there waits))
    · exact isolates.numbered.held other (.inr result)

/-- The execution that ran before is the running one again. -/
theorem isolates_switchBack :
    Isolates rounds [id] machine (after.switchBack machine.exec.id).2 := by
  have back := brings.numbered_switchBack isolates numbered
  obtain ⟨exec, named, same, -⟩ := after.switchBack_eq machine.exec.id
  have current : after.exec.id = id := isolates.id.trans brings.current
  simp only [same] at back ⊢
  refine ⟨back, named, UInt32.le_trans brings.handed isolates.handed, ?_, ?_, ?_, ?_⟩
  · intro thread member
    rcases isolates.threads thread member with old | fresh
    · exact .inl (brings.threads ▸ old)
    · exact .inr (UInt32.le_trans brings.handed fresh)
  · intro other below apart thread
    have differs : other ≠ id := fun same => apart (List.mem_singleton.mpr same)
    by_cases itself : other = machine.exec.id
    · rw [itself, numbered.waits_current]
      exact named ▸ back.waits_current
    · rw [← brings.waits other differs itself, ← isolates.spares other
        (UInt32.lt_of_lt_of_le below brings.handed) List.not_mem_nil
        fun runs => brings.threads ▸ thread runs]
      exact Prod.ext (find?_filter_ne itself) rfl
  · intro thread member apart held
    have differs : thread ≠ id := fun same => apart (List.mem_singleton.mpr same)
    have before : resumed.Holds thread ∨ resumed.nextExec ≤ thread :=
      held.imp (brings.holds differs).mpr (brings.fresh thread differs)
    rcases isolates.keeps thread member List.not_mem_nil before with there | result
    · refine .inl ?_
      by_cases itself : thread = machine.exec.id
      · exact List.mem_cons.mpr (.inl (itself.trans named.symm))
      · rcases mem_ids.mp there with running | waits
        · exact (differs (running.trans current)).elim
        · exact List.mem_cons.mpr (.inr (mem_map_filter_ne.mpr ⟨waits, itself⟩))
    · exact .inr result
  · intro other below
    have early := isolates.known other (UInt32.lt_of_lt_of_le below brings.handed)
    refine ⟨fun there => ?_, fun result => brings.results ▸ early.2 result⟩
    rcases List.mem_cons.mp there with itself | waits
    · exact mem_ids.mpr (.inl (itself.trans named))
    · have parked := (mem_map_filter_ne.mp waits).1
      have differs : other ≠ id := by
        rintro rfl
        exact isolates.numbered.current_notMem_parked (current ▸ parked)
      exact (brings.ids other differs).mp (early.1 (mem_ids.mpr (.inr parked)))

end BringsIn

/-- An execution that waits becomes the running one. -/
theorem Numbered.bringsIn_switchTo (numbered : machine.Numbered) {exec : Execution}
    (found : machine.unpark id = some (exec, left)) : machine.BringsIn id (left.switchTo exec) := by
  obtain ⟨member, named, rfl⟩ := Sound.mem_of_unpark found
  have waits : exec.id ∈ machine.parked.map (·.id) := List.mem_map.mpr ⟨exec, member, rfl⟩
  have differs : id ≠ machine.exec.id := by
    rintro rfl
    exact numbered.current_notMem_parked (named ▸ waits)
  have alone : (machine.parked.filter (·.id ≠ id)).filter (·.id ≠ machine.exec.id) =
      machine.parked.filter (·.id ≠ id) := by
    refine List.filter_eq_self.mpr fun other member => decide_eq_true fun same => ?_
    refine numbered.current_notMem_parked (List.mem_map.mpr ⟨other, ?_, same⟩)
    exact List.mem_of_mem_filter member
  have ids : ∀ {other : ExecId},
      other ∈ (exec :: machine.exec :: machine.parked.filter (·.id ≠ id)).map (·.id) ↔
        other ∈ machine.ids := by
    intro other
    rw [mem_ids, List.map_cons, List.map_cons, List.mem_cons, List.mem_cons, mem_map_filter_ne,
      named]
    constructor
    · rintro (rfl | current | ⟨waits, -⟩)
      · exact .inr (named ▸ waits)
      · exact .inl current
      · exact .inr waits
    · rintro (current | waits)
      · exact .inr (.inl current)
      · by_cases same : other = id
        · exact .inl same
        · exact .inr (.inr ⟨waits, same⟩)
  have resumed : ({ machine with parked := machine.parked.filter (·.id ≠ id) } : Machine).switchTo
      exec =
        { machine with exec, parked := machine.exec :: machine.parked.filter (·.id ≠ id) } := by
    rw [switchTo, Machine.park]
    dsimp only
    rw [alone]
  rw [resumed]
  refine ⟨⟨?_, ?_, ?_, numbered.threads⟩, named, ?_, differs, ?_, ?_, rfl, rfl, UInt32.le_refl _,
    fun _ _ later => later⟩
  · refine List.nodup_cons.mpr ⟨fun member => ?_, List.nodup_cons.mpr ⟨fun member => ?_, ?_⟩⟩
    · rcases List.mem_cons.mp member with same | waits
      · exact differs (named.symm.trans same)
      · exact (mem_map_filter_ne.mp waits).2 named
    · exact numbered.current_notMem_parked (mem_map_filter_ne.mp member).1
    · exact (List.nodup_cons.mp numbered.distinct).2.sublist
        (List.filter_sublist.map fun exec : Execution => exec.id)
  · exact fun other result there => numbered.ended other result (ids.mp there)
  · exact fun other held => numbered.held other (held.imp_left ids.mp)
  · exact List.find?_cons_of_pos (beq_self_eq_true machine.exec.id)
  · exact fun other _ => ids
  · intro other differs current
    have first : ¬(machine.exec.id == other) = true := fun same => current (beq_iff_eq.mp same).symm
    have skips (rest : List Execution) :
        (machine.exec :: rest).find? (·.id == other) = rest.find? (·.id == other) :=
      List.find?_cons_of_neg first
    exact Prod.ext ((skips _).trans (find?_filter_ne differs)) rfl

/-! ## What is parked again -/

section

variable (isolates : Isolates rounds [id] machine left) (free : ¬left.Holds id)
  (below : id < left.nextExec)

include isolates free below

/-- An execution whose id is free is parked under it. -/
theorem Isolates.park (known : id < machine.nextExec → id ∈ machine.ids) {exec : Execution}
    (named : exec.id = id) : Isolates rounds [id] machine (left.park exec) := by
  have alone : left.parked.filter (·.id ≠ exec.id) = left.parked := by
    refine List.filter_eq_self.mpr fun other member => decide_eq_true fun same => free (.inl ?_)
    exact mem_ids.mpr (.inr (List.mem_map.mpr ⟨other, member, same.trans named⟩))
  have parks : left.park exec = { left with parked := exec :: left.parked } := by
    rw [Machine.park, alone]
  have ids : ∀ {other : ExecId}, other ∈ (left.park exec).ids ↔ other = id ∨ other ∈ left.ids := by
    intro other
    rw [parks, mem_ids, mem_ids, List.map_cons, List.mem_cons, named]
    exact or_left_comm
  refine ⟨⟨?_, ?_, ?_, ?_⟩, ?_, ?_, ?_, ?_, ?_, ?_⟩
  · have apart : left.exec.id ∉ id :: left.parked.map (·.id) := by
      intro member
      rcases List.mem_cons.mp member with same | waits
      · exact free (.inl (mem_ids.mpr (.inl same.symm)))
      · exact isolates.numbered.current_notMem_parked waits
    rw [parks]
    refine List.nodup_cons.mpr ⟨by rw [List.map_cons, named]; exact apart, ?_⟩
    refine List.nodup_cons.mpr ⟨fun member => ?_, (List.nodup_cons.mp isolates.numbered.distinct).2⟩
    exact free (.inl (mem_ids.mpr (.inr (named ▸ member))))
  · intro other result there
    rcases ids.mp there with rfl | there
    · exact free (.inr result)
    · exact isolates.numbered.ended other result there
  · rintro other (there | result)
    · rcases ids.mp there with rfl | there
      · exact below
      · exact isolates.numbered.held other (.inl there)
    · exact isolates.numbered.held other (.inr result)
  · exact isolates.numbered.threads
  · exact isolates.id
  · exact isolates.handed
  · exact isolates.threads
  · intro other old apart thread
    rw [← isolates.spares other old apart thread, waits, waits, parks]
    have differs : (exec.id == other) = false :=
      beq_eq_false_iff_ne.mpr fun same => apart (List.mem_singleton.mpr (same.symm.trans named))
    rw [List.find?_cons_of_neg (by rw [differs]; exact Bool.false_ne_true)]
  · intro thread member apart held
    rcases isolates.keeps thread member apart held with there | result
    · exact .inl (ids.mpr (.inr there))
    · exact .inr result
  · intro other old
    refine ⟨fun there => ?_, (isolates.known other old).2⟩
    rcases ids.mp there with rfl | there
    · exact known old
    · exact (isolates.known other old).1 there

/-- The result of an execution that has ended waits under its id. -/
theorem Isolates.complete (fresh : machine.nextExec ≤ id) (value : Value) :
    Isolates rounds [id] machine { left with completed := (id, value) :: left.completed } := by
  have results : ∀ {other : ExecId},
      other ∈ ({ left with completed := (id, value) :: left.completed } : Machine).results ↔
        other = id ∨ other ∈ left.results := List.mem_cons
  refine ⟨⟨isolates.numbered.distinct, ?_, ?_, ?_⟩, ?_, ?_, ?_, ?_, ?_, ?_⟩
  · intro other result there
    rcases results.mp result with rfl | result
    · exact free (.inl there)
    · exact isolates.numbered.ended other result there
  · rintro other (there | result)
    · exact isolates.numbered.held other (.inl there)
    · rcases results.mp result with rfl | result
      · exact below
      · exact isolates.numbered.held other (.inr result)
  · exact isolates.numbered.threads
  · exact isolates.id
  · exact isolates.handed
  · exact isolates.threads
  · intro other old apart thread
    rw [← isolates.spares other old apart thread, waits, waits]
    have differs : (id == other) = false :=
      beq_eq_false_iff_ne.mpr fun same => apart (List.mem_singleton.mpr same.symm)
    rw [List.find?_cons_of_neg (by rw [differs]; exact Bool.false_ne_true)]
  · intro thread member apart held
    rcases isolates.keeps thread member apart held with there | result
    · exact .inl there
    · exact .inr (results.mpr (.inr result))
  · intro other old
    refine ⟨(isolates.known other old).1, fun result => ?_⟩
    rcases results.mp result with rfl | result
    · exact (UInt32.not_lt.mpr fresh old).elim
    · exact (isolates.known other old).2 result

end

/-! ## New executions -/

theorem lt_add_one {id : ExecId} (room : id + 1 ≠ 0) : id < id + 1 := by
  rw [UInt32.lt_iff_toNat_lt, UInt32.toNat_add]
  have bounded := id.toNat_lt
  have differs : (id.toNat + 1) % 2 ^ 32 ≠ 0 := by
    intro none
    exact room (UInt32.toNat_inj.mp (by rw [UInt32.toNat_add]; exact none))
  change id.toNat < (id.toNat + 1) % 2 ^ 32
  omega

/-- No other execution has the id of the running one. -/
theorem Numbered.others_eq (numbered : machine.Numbered) : machine.others = machine.parked := by
  refine List.filter_eq_self.mpr fun exec member => decide_eq_true fun same => ?_
  exact numbered.current_notMem_parked (List.mem_map.mpr ⟨exec, member, same⟩)

theorem Numbered.parked_spawn (numbered : machine.Numbered) :
    machine.spawn.parked = machine.exec :: machine.parked := by
  rw [← numbered.others_eq]
  rfl

/-- An execution that was created and has not run makes room again for the one before. -/
theorem Numbered.switchBack_of_parked (numbered : machine.Numbered)
    (parked : after.parked = machine.exec :: machine.parked) :
    after.switchBack machine.exec.id =
      (after.exec, { after with exec := machine.exec, parked := machine.parked }) := by
  have found : after.parked.find? (·.id == machine.exec.id) = some machine.exec := by
    rw [parked, List.find?_cons, beq_self_eq_true]
  have left : after.parked.filter (·.id ≠ machine.exec.id) = machine.parked := by
    rw [parked, List.filter_cons_of_neg (by simp only [ne_eq, not_true, decide_false]; exact nofun)]
    exact numbered.others_eq
  simp only [switchBack, unpark, found, left, Option.map_some]

/-- An execution that is created becomes the running one. -/
theorem Numbered.bringsIn_spawn (numbered : machine.Numbered) (room : machine.nextExec + 1 ≠ 0) :
    machine.BringsIn machine.nextExec machine.spawn := by
  have parked := numbered.parked_spawn
  have grown := lt_add_one room
  have ids : machine.spawn.ids = machine.nextExec :: machine.ids := by
    rw [Machine.ids, executions, parked]
    rfl
  have free : ∀ {other}, machine.Holds other → other ≠ machine.nextExec := by
    rintro other held rfl
    exact UInt32.lt_irrefl _ (numbered.held _ held)
  have first : machine.spawn.parked.find? (·.id == machine.exec.id) = some machine.exec := by
    rw [parked, List.find?_cons, beq_self_eq_true]
  refine ⟨⟨?_, ?_, ?_, ?_⟩, rfl, first, ?_, ?_, ?_, rfl, rfl, UInt32.le_of_lt grown, ?_⟩
  · rw [ids]
    exact List.nodup_cons.mpr ⟨fun member => free (.inl member) rfl, numbered.distinct⟩
  · intro other result there
    rw [ids] at there
    rcases List.mem_cons.mp there with rfl | there
    · exact free (.inr result) rfl
    · exact numbered.ended other result there
  · rintro other (there | result)
    · rw [ids] at there
      rcases List.mem_cons.mp there with rfl | there
      · exact grown
      · exact UInt32.lt_trans (numbered.held other (.inl there)) grown
    · exact UInt32.lt_trans (numbered.held other (.inr result)) grown
  · exact fun thread member => UInt32.lt_trans (numbered.threads thread member) grown
  · exact fun same => free (.inl (mem_ids.mpr (.inl rfl))) same.symm
  · intro other differs
    rw [ids, List.mem_cons]
    exact or_iff_right differs
  · intro other _ differs
    rw [waits, waits, parked, List.find?_cons_of_neg]
    · rfl
    · rw [beq_iff_eq]
      exact differs.symm
  · intro other differs later
    rw [UInt32.le_iff_toNat_le] at later ⊢
    rw [UInt32.lt_iff_toNat_lt] at grown
    have apart : other.toNat ≠ machine.nextExec.toNat :=
      fun same => differs (UInt32.toNat_inj.mp same)
    have next : machine.spawn.nextExec.toNat ≤ machine.nextExec.toNat + 1 := by
      change (machine.nextExec + 1).toNat ≤ _
      rw [UInt32.toNat_add]
      exact Nat.mod_le _ _
    omega

/-- The list of threads says nothing of an execution that was just created. -/
theorem Isolates.of_fresh (isolates : Isolates rounds [machine.nextExec] machine after)
    (unlisted : machine.nextExec ∉ after.guestThreads) : Isolates rounds [] machine after where
  numbered := isolates.numbered
  id := isolates.id
  handed := isolates.handed
  threads := isolates.threads
  spares other below _ thread := by
    refine isolates.spares other below (fun same => ?_) thread
    exact UInt32.lt_irrefl _ (List.mem_singleton.mp same ▸ below)
  keeps thread member _ held := by
    refine isolates.keeps thread member (fun same => ?_) held
    exact unlisted (List.mem_singleton.mp same ▸ member)
  known := isolates.known

/-- An execution of a thread is listed for whoever drives the one that started it. -/
def adopt (machine : Machine) (id : ExecId) (thread : Ref) : Machine :=
  { machine with
    parked := machine.parked.map fun exec =>
      if exec.id = id then { exec with threadObject := some thread } else exec
    guestThreads := machine.guestThreads ++ [id] }

theorem Isolates.adopt (isolates : Isolates rounds [] machine after) (fresh : machine.nextExec ≤ id)
    (held : after.Holds id) (thread : Ref) :
    Isolates rounds [] machine (after.adopt id thread) := by
  have ids : (after.adopt id thread).ids = after.ids := by
    have parked : (after.adopt id thread).parked.map (·.id) = after.parked.map (·.id) := by
      rw [Machine.adopt, List.map_map]
      refine List.map_congr_left fun exec _ => ?_
      rw [Function.comp_apply]
      split <;> rfl
    exact congrArg (List.cons _) parked
  have holds : ∀ {other}, (after.adopt id thread).Holds other ↔ after.Holds other := by
    intro other
    rw [Holds, Holds, ids]
    rfl
  refine ⟨⟨?_, ?_, ?_, ?_⟩, isolates.id, isolates.handed, ?_, ?_, ?_, ?_⟩
  · rw [ids]
    exact isolates.numbered.distinct
  · rw [ids]
    exact isolates.numbered.ended
  · exact fun other there => isolates.numbered.held other (holds.mp there)
  · intro other member
    rcases List.mem_append.mp member with old | new
    · exact isolates.numbered.threads other old
    · exact List.mem_singleton.mp new ▸ isolates.numbered.held id held
  · intro other member
    rcases List.mem_append.mp member with old | new
    · exact isolates.threads other old
    · exact .inr (List.mem_singleton.mp new ▸ fresh)
  · intro other below apart unlisted
    rw [← isolates.spares other below apart unlisted, waits, waits]
    refine Prod.ext ?_ rfl
    have differs : other ≠ id := by
      rintro rfl
      exact UInt32.not_lt.mpr fresh below
    have named : ((fun exec : Execution => exec.id == other) ∘ fun exec =>
        if exec.id = id then { exec with threadObject := some thread } else exec) =
          fun exec => exec.id == other := by
      funext exec
      rw [Function.comp_apply]
      split <;> rfl
    change List.find? _ (List.map _ after.parked) = _
    rw [List.find?_map, named]
    cases found : after.parked.find? (·.id == other) with
    | none => rfl
    | some exec =>
        have same : exec.id = other := beq_iff_eq.mp (List.find?_some found :)
        rw [Option.map_some, if_neg (by rw [same]; exact differs)]
  · intro other member apart there
    refine holds.mpr ?_
    rcases List.mem_append.mp member with old | new
    · exact isolates.keeps other old apart there
    · exact List.mem_singleton.mp new ▸ held
  · intro other below
    rw [ids]
    exact isolates.known other below

end Machine

end Jvm

/-!
## Natives and what waits

A thread that is started gets an execution that waits from then on. No other native has
anything to do with what waits, unless a native of the embedder calls into the machine on an
idle execution.
-/

namespace Jvm

open Machine

variable {rounds : Prop}

/-- Whether the calls that natives may make leave alone what waits. They are not made on an
execution that has the last id, which is handed back. -/
structure Reentry.Isolating rounds (reentry : Reentry) : Prop where
  enter : ∀ id arguments, Machine.Isolating rounds (reentry.enter id arguments)
  complete : Machine.Isolating rounds reentry.complete
  handsBack : ∀ id arguments machine, machine.nextExec = 0 →
    ∃ error, reentry.enter id arguments machine =
      .error error { machine with nextExec := machine.exec.id }

namespace Reentry.Isolating

variable {reentry : Reentry} (isolating : reentry.Isolating rounds)

include isolating

theorem call (id : MethodId) (arguments : List Value) :
    Machine.Isolating rounds (reentry.call id arguments) := by
  refine (isolating.enter id arguments).bind fun entered => ?_
  split
  · exact .pure _
  · exact isolating.complete

/-- An execution that is created gets an id of its own, unless the ids have run out. -/
theorem prepare {machine : Machine} (numbered : machine.Numbered) (id : MethodId)
    (arguments : List Value) :
    Moves (Isolates rounds []) (reentry.prepare id arguments) machine
      fun new after => machine.nextExec ≤ new ∧ after.Holds new := by
  have prepares := reentry.prepare_eq id arguments machine
  by_cases room : machine.nextExec + 1 = 0
  · obtain ⟨error, refused⟩ := isolating.handsBack id arguments machine.spawn room
    rw [refused] at prepares
    have back : ({ machine.spawn with nextExec := machine.spawn.exec.id } : Machine).switchBack
        machine.exec.id = _ := numbered.switchBack_of_parked numbered.parked_spawn
    refine Moves.of_error prepares (Aside.isolates ?_ numbered)
    simp only [back]
    exact ⟨rfl, rfl, rfl, rfl, rfl⟩
  · have brings := numbered.bringsIn_spawn room
    have entered := isolating.enter id arguments machine.spawn brings.numbered
    have unlisted : ∀ after, Isolates rounds [] machine.spawn after →
        machine.nextExec ∉ after.guestThreads := by
      intro after isolates member
      rcases isolates.threads _ member with old | later
      · exact UInt32.lt_irrefl _ (numbered.threads _ old)
      · exact UInt32.not_lt.mpr later (lt_add_one room)
    have back : ∀ after, Isolates rounds [] machine.spawn after →
        Isolates rounds [machine.nextExec] machine (after.switchBack machine.exec.id).2 ∧
          ¬(after.switchBack machine.exec.id).2.Holds machine.nextExec ∧
          machine.nextExec < (after.switchBack machine.exec.id).2.nextExec ∧
          machine.nextExec ∉ (after.switchBack machine.exec.id).2.guestThreads := by
      intro after isolates
      refine ⟨brings.isolates_switchBack isolates numbered,
        brings.not_holds_switchBack isolates, ?_, ?_⟩
      · rw [nextExec_switchBack]
        exact UInt32.lt_of_lt_of_le (lt_add_one room) isolates.handed
      · rw [guestThreads_switchBack]
        exact unlisted after isolates
    cases ran : reentry.enter id arguments machine.spawn with
    | error error after =>
        rw [ran] at prepares
        have reached := ends_of_error ran entered
        obtain ⟨isolates, -, -, free⟩ := back after reached
        exact Moves.of_error prepares (isolates.of_fresh free)
    | ok entered' after =>
        rw [ran] at prepares
        have ran' := ends_of_ok ran entered
        obtain ⟨isolates, gone, below, free⟩ := back after ran'.1
        cases entered' with
        | some value =>
            refine Moves.of_ok prepares (Isolates.of_fresh ?_ free) ⟨UInt32.le_refl _, ?_⟩
            · exact isolates.complete gone below (UInt32.le_refl _) value
            · exact .inr (List.mem_cons.mpr (.inl rfl))
        | none =>
            have named : (after.switchBack machine.exec.id).1.id = machine.nextExec := by
              rw [fst_switchBack]
              exact ran'.1.id
            refine Moves.of_ok prepares (Isolates.of_fresh ?_ free) ⟨UInt32.le_refl _, ?_⟩
            · exact isolates.park gone below (fun less => (UInt32.lt_irrefl _ less).elim) named
            · exact .inl (mem_ids.mpr (.inr (List.mem_cons.mpr (.inl named.symm))))

end Reentry.Isolating

namespace ThreadNative

open Guest

variable {reentry : Reentry} (isolating : reentry.Isolating rounds)

include isolating

theorem isolating_begin (thread : Ref) : Isolating rounds (begin reentry thread) := by
  have starts : Isolating rounds (launch reentry thread) := by
    rw [launch]
    refine .bind (.of_blind fun _ => blind_classOf thread) fun cls => .get_bind fun machine => ?_
    dsimp only
    split
    · exact .of_blind fun _ => blind_raise _ _
    · intro machine numbered
      refine Moves.bind_from (moves_ofHost (isolating.prepare numbered _ _)) ?_
      rintro id after isolates ⟨fresh, held⟩
      have named : machine.nextExec ≤ id := fresh
      have records : after.Aside (after.modifyHeap fun heap =>
          heap.modifyFields thread fun fields => fields.set after.known.threadExecution id) :=
        ⟨rfl, rfl, rfl, rfl, rfl⟩
      have recorded := isolates.trans (records.isolates isolates.numbered)
      exact Moves.of_ok rfl (recorded.adopt named held thread) trivial
  refine .get_bind fun machine => ?_
  split
  · exact Course.Follows.bind (.of_blind fun _ => blind_raise _ _) fun _ => starts
  · exact starts

end ThreadNative

/-- No other native has anything to do with what waits. -/
theorem Reentry.Isolating.admits {reentry : Reentry} (isolating : reentry.Isolating rounds) :
    (isolation rounds).Admits reentry :=
  Course.admits_of_calls isolating.call (ThreadNative.isolating_begin isolating)

end Jvm
