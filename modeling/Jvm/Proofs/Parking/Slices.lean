import Jvm.Machine.Host
import Jvm.Proofs.Machine.FrameChain
import Jvm.Proofs.Machine.Sound
import Jvm.Proofs.Parking.Spawning

/-!
# Slices and what waits

A slice of an execution has to do with that execution alone, and with the threads that it
starts. Only where a thread starts with a native method that needs a run to its end, of an
initializer or of what the method calls, the other threads that guest code had started before
get slices on the way.
-/

namespace Jvm

open Machine

variable {rounds : Prop}

namespace Machine

variable {sliced : List ExecId} {first second third machine after : Machine} {id : ExecId}

/-- A thread that guest code had started has had a slice, and is listed only if it goes on. -/
theorem Isolates.slice (early : Isolates True [] first second) (listed : id ∈ first.guestThreads)
    (late : Isolates True [id] second third) (held : id ∈ third.guestThreads → third.Holds id) :
    Isolates True [] first third where
  numbered := late.numbered
  id := late.id.trans early.id
  handed := UInt32.le_trans early.handed late.handed
  threads other member := by
    rcases late.threads other member with old | fresh
    · exact early.threads other old
    · exact .inr (UInt32.le_trans early.handed fresh)
  spares other below apart unlisted := by
    have differs : other ∉ [id] := fun same =>
      unlisted trivial (List.mem_singleton.mp same ▸ listed)
    have later : True → other ∉ second.guestThreads := fun _ member =>
      (early.threads other member).elim (unlisted trivial) fun fresh =>
        UInt32.not_lt.mpr fresh below
    rw [late.spares other (UInt32.lt_of_lt_of_le below early.handed) differs later,
      early.spares other below apart unlisted]
  keeps other member apart there := by
    by_cases same : other = id
    · exact same ▸ held (same ▸ member)
    · refine late.keeps other member (fun mem => same (List.mem_singleton.mp mem)) ?_
      rcases late.threads other member with old | fresh
      · exact .inl (early.keeps other old apart there)
      · exact .inr fresh
  known other below := by
    have later := late.known other (UInt32.lt_of_lt_of_le below early.handed)
    have earlier := early.known other below
    exact ⟨fun member => earlier.1 (later.1 member), fun member => earlier.2 (later.2 member)⟩

/-- An execution is taken off the list of threads. -/
theorem Isolates.forget (isolates : Isolates rounds sliced machine after) (id : ExecId) :
    Isolates rounds sliced machine (after.forgetThread id) where
  numbered := ⟨isolates.numbered.distinct, isolates.numbered.ended, isolates.numbered.held,
    fun other member => isolates.numbered.threads other (List.mem_of_mem_filter member)⟩
  id := isolates.id
  handed := isolates.handed
  threads other member := isolates.threads other (List.mem_of_mem_filter member)
  spares := isolates.spares
  keeps other member := isolates.keeps other (List.mem_of_mem_filter member)
  known := isolates.known

theorem notMem_forgetThread (machine : Machine) (id : ExecId) :
    id ∉ (machine.forgetThread id).guestThreads := by
  intro member
  have differs := (List.mem_filter.mp member).2
  rw [decide_eq_true_eq] at differs
  exact differs rfl

/-- What has a slice of its own is not what is spared. -/
theorem Isolates.weaken (isolates : Isolates rounds [] machine after) (sliced : List ExecId) :
    Isolates rounds sliced machine after where
  numbered := isolates.numbered
  id := isolates.id
  handed := isolates.handed
  threads := isolates.threads
  spares other below _ := isolates.spares other below List.not_mem_nil
  keeps other member _ := isolates.keeps other member List.not_mem_nil
  known := isolates.known

/-- The result of an execution is handed over. -/
theorem Numbered.isolates_takeCompleted (numbered : machine.Numbered) {value : Value}
    (taken : machine.takeCompleted id = some (value, after)) :
    Isolates rounds [id] machine after ∧ ¬after.Holds id ∧ after.exec = machine.exec := by
  obtain ⟨entry, found, same⟩ := Option.map_eq_some_iff.mp taken
  obtain ⟨-, rfl⟩ := Prod.mk.inj same
  have named : entry.1 = id := beq_iff_eq.mp (List.find?_some found :)
  have result : id ∈ machine.results :=
    List.mem_map.mpr ⟨entry, List.mem_of_find?_eq_some found, named⟩
  have results : ∀ {other : ExecId},
      other ∈ (machine.completed.filter fun entry => entry.1 ≠ id).map (·.1) ↔
        other ∈ machine.results ∧ other ≠ id := by
    intro other
    simp only [results, List.mem_map, List.mem_filter, decide_eq_true_eq]
    constructor
    · rintro ⟨entry, ⟨member, differs⟩, rfl⟩
      exact ⟨⟨entry, member, rfl⟩, differs⟩
    · rintro ⟨⟨entry, member, rfl⟩, differs⟩
      exact ⟨entry, ⟨member, differs⟩, rfl⟩
  refine ⟨⟨⟨numbered.distinct, ?_, ?_, numbered.threads⟩, rfl, UInt32.le_refl _,
    fun _ member => .inl member, ?_, ?_, ?_⟩, ?_, rfl⟩
  · exact fun other member => numbered.ended other (results.mp member).1
  · exact fun other held => numbered.held other (held.imp_right fun member => (results.mp member).1)
  · intro other _ apart _
    refine Prod.ext rfl ?_
    have differs : other ≠ id := fun same => apart (List.mem_singleton.mpr same)
    refine (List.find?_filter ..).trans (congrArg (List.find? · machine.completed) ?_)
    funext entry
    by_cases same : entry.1 = other
    · simp [same, differs]
    · simp [same]
  · intro other member apart held
    have differs : other ≠ id := fun same => apart (List.mem_singleton.mpr same)
    rcases held with there | fresh
    · exact there.imp_right fun member => results.mpr ⟨member, differs⟩
    · exact (UInt32.not_lt.mpr fresh (numbered.threads other member)).elim
  · exact fun other _ => ⟨fun member => member, fun member => (results.mp member).1⟩
  · rintro (there | member)
    · exact numbered.ended id result there
    · exact (results.mp member).2 rfl

end Machine

namespace Host

section

variable {reentry : Reentry} (isolating : reentry.Isolating rounds)

include isolating

/-- How a slice of an execution ends: it is gone if it has ended, and waits otherwise. -/
def Settled (id : ExecId) (outcome : SliceOutcome) (after : Machine) : Prop :=
  match outcome with
  | .finished _ => ¬after.Holds id
  | .yielded | .blocked | .suspended | .sleeping _ => id ∈ after.parked.map (·.id)

/-- A slice leaves the other executions alone, and the current one is current again. -/
theorem ends_runParkedSlice {machine : Machine} (numbered : machine.Numbered) (id : ExecId) :
    Ends (runParkedSlice reentry id) machine
      (fun outcome after => Isolates rounds [id] machine after ∧ Settled id outcome after ∧
        ((rounds → machine.exec.id ∉ machine.guestThreads) → after.exec = machine.exec))
      fun _ after => Isolates rounds [id] machine after ∧
        (id ≠ machine.exec.id → ¬after.Holds id) ∧
        ((rounds → machine.exec.id ∉ machine.guestThreads) → after.exec = machine.exec) := by
  simp only [Ends, runParkedSlice]
  cases taken : machine.takeCompleted id with
  | some finished =>
      obtain ⟨isolates, gone, same⟩ := numbered.isolates_takeCompleted taken
      exact ⟨isolates, gone, fun _ => same⟩
  | none =>
      cases found : machine.unpark id with
      | none =>
          refine ⟨numbered.isolates_refl.weaken [id], fun differs => ?_, fun _ => rfl⟩
          rintro (there | result)
          · rcases mem_ids.mp there with current | waits
            · exact differs current
            · obtain ⟨exec, member, same⟩ := List.mem_map.mp waits
              refine List.find?_eq_none.mp (Option.map_eq_none_iff.mp found) exec member ?_
              exact beq_iff_eq.mpr same
          · obtain ⟨entry, member, same⟩ := List.mem_map.mp result
            refine List.find?_eq_none.mp (Option.map_eq_none_iff.mp taken) entry member ?_
            exact beq_iff_eq.mpr same
      | some place =>
          obtain ⟨exec, left⟩ := place
          have brings := numbered.bringsIn_switchTo found
          have waits : id ∈ machine.ids := by
            obtain ⟨member, named, -⟩ := Sound.mem_of_unpark found
            exact mem_ids.mpr (.inr (List.mem_map.mpr ⟨exec, member, named⟩))
          have same : left.exec.id = machine.exec.id := by
            obtain ⟨-, -, rfl⟩ := Sound.mem_of_unpark found
            rfl
          dsimp only
          rw [same]
          generalize left.switchTo exec = resumed at brings ⊢
          have back : ∀ after, Isolates rounds [] resumed after →
              Isolates rounds [id] machine (after.switchBack machine.exec.id).2 ∧
                ¬(after.switchBack machine.exec.id).2.Holds id ∧
                ((rounds → machine.exec.id ∉ machine.guestThreads) →
                  (after.switchBack machine.exec.id).2.exec = machine.exec) := fun after isolates =>
            ⟨brings.isolates_switchBack isolates numbered, brings.not_holds_switchBack isolates,
              brings.exec_switchBack isolates⟩
          by_cases terminated : resumed.terminated = true
          · simp only [if_pos terminated]
            obtain ⟨isolates, gone, exec⟩ := back resumed.abandonExecution
              (resumed.inside_abandonExecution.toAside.isolates brings.numbered)
            exact ⟨isolates, fun _ => gone, exec⟩
          · simp only [if_neg terminated]
            have slice := Course.follows_runSlice isolating.admits resumed.config.sliceBudget
              resumed brings.numbered
            cases ran : runSlice reentry resumed.config.sliceBudget resumed with
            | error error after =>
                have reached := ends_of_error ran slice
                obtain ⟨isolates, gone, exec⟩ := back after reached
                exact ⟨isolates, fun _ => gone, exec⟩
            | ok outcome after =>
                have reached := (ends_of_ok ran slice).1
                obtain ⟨isolates, gone, exec⟩ := back after reached
                have named : (after.switchBack machine.exec.id).1.id = id := by
                  rw [fst_switchBack]
                  exact reached.id.trans brings.current
                have below : id < (after.switchBack machine.exec.id).2.nextExec :=
                  UInt32.lt_of_lt_of_le (numbered.held id (.inl waits)) isolates.handed
                have parks := isolates.park gone below (fun _ => waits) named
                have again : id ∈ ((after.switchBack machine.exec.id).2.park
                    (after.switchBack machine.exec.id).1).parked.map (·.id) :=
                  List.mem_cons.mpr (.inl named.symm)
                cases outcome with
                | finished value => exact ⟨isolates, gone, exec⟩
                | yielded | blocked | suspended | sleeping => exact ⟨parks, again, exec⟩

end

/-! ## Rounds -/

section

variable {reentry : Reentry} (isolating : reentry.Isolating True)

include isolating

theorem isolates_runGuestSlice {start machine : Machine} (isolates : Isolates True [] start machine)
    {id : ExecId} (listed : id ∈ start.guestThreads) (round : GuestRound) :
    Moves (fun _ => Isolates True [] start) (runGuestSlice reentry round id) machine
      fun _ _ => True := by
  have slice := ends_runParkedSlice isolating isolates.numbered id
  rw [runGuestSlice, Moves, ends_bind, ends_catching]
  have forgets : ∀ {after : Machine}, Isolates True [id] machine after →
      Isolates True [] start (after.forgetThread id) := fun late =>
    isolates.slice listed (late.forget id) fun member => (notMem_forgetThread _ id member).elim
  have waits : ∀ {after : Machine}, Isolates True [id] machine after →
      id ∈ after.parked.map (·.id) → Isolates True [] start after := fun late waits =>
    isolates.slice listed late fun _ => .inl (mem_ids.mpr (.inr waits))
  refine slice.mono ?_ ?_
  · rintro outcome after ⟨late, settled, -⟩
    cases outcome with
    | finished value =>
        exact ends_bind.mpr (ends_modify.mpr (ends_pure.mpr ⟨forgets late, trivial⟩))
    | suspended => exact ends_throw.mpr (waits late settled)
    | yielded | blocked | sleeping => exact ends_pure.mpr ⟨waits late settled, trivial⟩
  · rintro error after ⟨late, -, -⟩
    have reported : Isolates True [id] machine (after.reportDeath id error) :=
      late.trans ((after.inside_reportDeath id error).toAside.isolates late.numbered)
    exact ends_bind.mpr (ends_modify.mpr (ends_pure.mpr ⟨forgets reported, trivial⟩))

/-- A round of slices has to do with the threads that were listed before it. -/
theorem isolating_runGuestSlices : Isolating True (runGuestSlices reentry) := by
  intro start numbered
  refine Moves.get_bind ?_
  have rounds : ∀ (ids : List ExecId) (round : GuestRound) (machine : Machine),
      (∀ id ∈ ids, id ∈ start.guestThreads) → Isolates True [] start machine →
      Moves (fun _ => Isolates True [] start) (ids.foldlM (runGuestSlice reentry) round) machine
        fun _ _ => True := by
    intro ids
    induction ids with
    | nil => exact fun _ _ _ isolates => Moves.pure isolates trivial
    | cons id rest ih =>
        intro round machine listed isolates
        have first := isolates_runGuestSlice isolating isolates (listed id (.head _)) round
        rw [List.foldlM_cons]
        refine first.bind_from fun round after isolates _ => ?_
        exact ih round after (fun other member => listed other (.tail _ member)) isolates
  exact rounds _ _ start (fun _ member => member) numbered.isolates_refl

end

end Host

/-! ## Calls of natives -/

namespace Reentry

/-- Calls that are made as long as there are ids for new executions: the last id is handed
back. -/
def sparing (reentry : Reentry) : Reentry :=
  { reentry with
    enter := fun id arguments machine =>
      if machine.nextExec = 0 then
        .error .exhausted { machine with nextExec := machine.exec.id }
      else reentry.enter id arguments machine }

/-- Calls that nest no deeper than `depth`, as long as there are ids for new executions. How
calls run to their ends is given. -/
def sparingOfDepth (complete : Reentry → Host Value) : Nat → Reentry
  | 0 => sparing { enter := fun _ _ => throw .exhausted, complete := throw .exhausted }
  | depth + 1 =>
    let inner := sparingOfDepth complete depth
    sparing { enter := Host.enterMethod inner (complete inner), complete := complete inner }

theorem isolating_sparing {reentry : Reentry}
    (enter : ∀ id arguments, Machine.Isolating rounds (reentry.enter id arguments))
    (complete : Machine.Isolating rounds reentry.complete) : reentry.sparing.Isolating rounds where
  enter id arguments machine numbered := by
    have same : reentry.sparing.enter id arguments machine = reentry.enter id arguments machine :=
      if_neg numbered.nextExec_ne_zero
    rw [Moves, ends_congr same]
    exact enter id arguments machine numbered
  complete := complete
  handsBack _ _ _ none := ⟨.exhausted, if_pos none⟩

theorem isolating_sparingOfDepth {complete : Reentry → Host Value}
    (completes : ∀ reentry : Reentry, reentry.Isolating rounds →
      Machine.Isolating rounds (complete reentry)) (depth : Nat) :
    (sparingOfDepth complete depth).Isolating rounds := by
  induction depth with
  | zero => exact isolating_sparing (fun _ _ => .throw _) (.throw _)
  | succ depth ih =>
      exact isolating_sparing (Course.follows_enterMethod ih.admits (completes _ ih))
        (completes _ ih)

end Reentry

/-! ## What a slice leaves of the others -/

namespace Machine

/-- What a slice of an execution leaves of the others, if some threads may have had slices as
well. The others are what they were and where they were, and the current one is current again.
No thread that is still listed has been lost, and what there is now was there before or has
been started. -/
structure Undisturbed (id : ExecId) (exempt : List ExecId) (before after : Machine) : Prop where
  numbered : after.Numbered
  current : after.exec.id = before.exec.id
  others : ∀ other, before.Holds other → other ≠ id → other ∉ exempt →
    after.execution? other = before.execution? other ∧
      after.completed.find? (·.1 == other) = before.completed.find? (·.1 == other)
  listed : ∀ thread ∈ after.guestThreads, thread ≠ id →
    before.Holds thread ∨ before.nextExec ≤ thread → after.Holds thread
  started : ∀ other, after.Holds other → before.Holds other ∨ before.nextExec ≤ other

theorem Isolates.undisturbed {before after : Machine} {id : ExecId} {exempt : List ExecId}
    (isolates : Isolates rounds [id] before after) (numbered : before.Numbered)
    (exempts : ∀ other, other ∉ exempt → rounds → other ∉ before.guestThreads)
    (back : (rounds → before.exec.id ∉ before.guestThreads) → after.exec = before.exec) :
    before.Undisturbed id exempt after where
  numbered := isolates.numbered
  current := isolates.id
  others other held differs free := by
    have apart : other ∉ [id] := fun same => differs (List.mem_singleton.mp same)
    have spared := isolates.spares other (numbered.held other held) apart (exempts other free)
    refine ⟨?_, congrArg Prod.snd spared⟩
    rw [execution?, execution?, isolates.id]
    split
    · next same => rw [back (exempts _ (same ▸ free))]
    · exact congrArg Prod.fst spared
  listed thread member differs held :=
    isolates.keeps thread member (fun same => differs (List.mem_singleton.mp same)) held
  started other held := by
    by_cases fresh : before.nextExec ≤ other
    · exact .inr fresh
    · have known := isolates.known other (UInt32.not_le.mp fresh)
      exact .inl (held.imp known.1 known.2)

/-- A machine starts with one execution, which has an id of its own. -/
theorem numbered_of_start {config : Config} {classes : ClassPath} {machine : Machine}
    (started : start config classes = .ok machine) : machine.Numbered := by
  simp only [start, Except.bind_eq_ok] at started
  obtain ⟨bootstrap, -, before, linked, prepared⟩ := started
  have numbered : before.Numbered := by
    simp only [Machine.linked, Except.bind_eq_ok, pure, Except.pure, Except.ok.injEq] at linked
    obtain ⟨_, _, _, _, rfl⟩ := linked
    refine ⟨List.nodup_singleton _, fun _ member => absurd member List.not_mem_nil, ?_,
      fun _ member => absurd member List.not_mem_nil⟩
    rintro id (member | member)
    · rw [List.mem_singleton.mp member]
      exact (by decide : Execution.mainId < Execution.mainId + 1)
    · exact absurd member List.not_mem_nil
  have makes : Isolating False (Guest.newThrowable ExceptionKind.outOfMemoryError.className
      (some "Java heap space")) := .of_blind fun _ => Guest.blind_newThrowable _ _
  rw [prepareOutOfMemory] at prepared
  dsimp only at prepared
  split at prepared
  · next ref made ran =>
      cases prepared
      have isolates := (ends_of_ok ran (makes before numbered)).1
      have keeps : made.Aside { made.modifyHeap fun heap => heap.setSticky ref with
          outOfMemory := some ref } := ⟨rfl, rfl, rfl, rfl, rfl⟩
      exact keeps.numbered isolates.numbered
  · cases prepared
  · cases prepared

end Machine

namespace Host

/-- A slice touches its own execution only. Afterwards the others, the current one included,
are exactly what they were; the current one is current again; every unfinished execution runs,
waits or has its result wait under an id of its own, and the one that had the slice waits once
more or is gone if it has ended.

Where a thread that starts in the slice runs a native method that needs runs of its own to
their ends, the threads that guest code had started may get slices as well. This is as long as
there are ids for new executions. -/
theorem slice_leaves_others (bounds : Bounds) (machine : Machine) (id : ExecId)
    (numbered : machine.Numbered) (apart : id ≠ machine.exec.id) :
    (runParkedSlice (Reentry.sparingOfDepth (fun _ => throw .exhausted) bounds.nesting) id machine =
        runParkedSlice bounds.reentry id machine →
      Ends (runParkedSlice bounds.reentry id) machine
        (fun outcome after => machine.Undisturbed id [] after ∧ Settled id outcome after)
        fun _ after => machine.Undisturbed id [] after ∧ ¬after.Holds id) ∧
    (runParkedSlice (Reentry.sparingOfDepth (runToCompletion · bounds.slices) bounds.nesting) id
        machine = runParkedSlice bounds.reentry id machine →
      Ends (runParkedSlice bounds.reentry id) machine
        (fun outcome after => machine.Undisturbed id machine.guestThreads after ∧
          Settled id outcome after)
        fun _ after => machine.Undisturbed id machine.guestThreads after ∧ ¬after.Holds id) := by
  refine ⟨fun same => ?_, fun same => ?_⟩
  · have isolating : (Reentry.sparingOfDepth (fun _ => throw .exhausted) bounds.nesting).Isolating
        False := Reentry.isolating_sparingOfDepth (fun _ _ => .throw _) _
    refine (ends_congr same).mp ((ends_runParkedSlice isolating numbered id).mono ?_ ?_)
    · exact fun outcome after ended => ⟨ended.1.undisturbed numbered (fun _ _ => False.elim)
        ended.2.2, ended.2.1⟩
    · exact fun error after ended => ⟨ended.1.undisturbed numbered (fun _ _ => False.elim)
        ended.2.2, ended.2.1 apart⟩
  · have isolating : (Reentry.sparingOfDepth (runToCompletion · bounds.slices)
        bounds.nesting).Isolating True := Reentry.isolating_sparingOfDepth
      (fun _ inner => Course.follows_runToCompletion inner.admits
        (isolating_runGuestSlices inner) bounds.slices) _
    refine (ends_congr same).mp ((ends_runParkedSlice isolating numbered id).mono ?_ ?_)
    · exact fun outcome after ended => ⟨ended.1.undisturbed numbered (fun _ free _ => free)
        ended.2.2, ended.2.1⟩
    · exact fun error after ended => ⟨ended.1.undisturbed numbered (fun _ free _ => free)
        ended.2.2, ended.2.1 apart⟩

/-! ## A slice that moves another thread -/

/-- The method that starts a thread. -/
def startMethod : Method where
  owner := ⟨0⟩
  name := "start"
  descriptor := "()V"
  flags := Access.isNative
  params := []
  ret := none
  argSlots := 0
  code := none
  native := some (.builtin (.thread .start))

/-- A native method that a thread runs, which does nothing. -/
def silentRun : Method where
  owner := ⟨1⟩
  name := "run"
  descriptor := "()V"
  flags := Access.isNative
  params := []
  ret := none
  argSlots := 0
  code := none
  native := some (.host fun _ => .finish .void)

/-- A class whose method starts a thread, with a method that passes over some instructions. -/
def starterClass : Class where
  id := ⟨0⟩
  name := "F"
  flags := 0
  superclass := none
  interfaces := []
  pool := ⟨#[.empty, .resolvedMethod ⟨⟨⟨0⟩, 0⟩, 1, false⟩]⟩
  methods := #[startMethod, nullary #[0xB7, 0, 1, 0xB1], nullary #[0, 0xB1]]

/-- The class of a thread, whose initializer has not run. -/
def runnerClass : Class where
  id := ⟨1⟩
  name := "G"
  flags := 0
  superclass := none
  interfaces := []
  methods := #[silentRun, { nullary #[0, 0xB1] with owner := ⟨1⟩, name := "<clinit>" }]

/-- The execution that is about to start a thread. -/
def starter : Execution :=
  let entered := (Execution.idle 2 64).enter (nullary #[0xB7, 0, 1, 0xB1]) ⟨⟨0⟩, 1⟩ 0 0
  { entered with stack := entered.stack.pushRef (some (Ref.ofIndex 0)) }

/-- The execution of a thread that was started before. -/
def bystander : Execution :=
  (Execution.idle 3 64).enter (nullary #[0, 0xB1]) ⟨⟨0⟩, 2⟩ 0 0

/-- A machine where one execution is about to start a thread, and another one waits. -/
def starting : Machine where
  config := { sliceBudget := 1 }
  registry := { classes := #[starterClass, runnerClass] }
  known := default
  heap := { Heap.ofConfig {} with
    objects := #[some { cls := ⟨1⟩, hash := 1, body := .instance (Fields.ofSize 1) }] }
  exec := Execution.idle Execution.mainId 64
  parked := [starter, bystander]
  guestThreads := [3]
  nextExec := 4

theorem numbered_starting : starting.Numbered where
  distinct := by decide
  ended _ member := absurd member List.not_mem_nil
  held id held := by
    rcases held with member | member
    · have listed : id ∈ [1, 2, 3] := member
      have cases : id = 1 ∨ id = 2 ∨ id = 3 := by simpa using listed
      rcases cases with rfl | rfl | rfl <;> decide
    · exact absurd member List.not_mem_nil
  threads id member := by
    rw [List.mem_singleton.mp member]
    decide

/-- The same machine, with slices that last. -/
def lasting : Machine := { starting with config := { sliceBudget := 9 } }

/-- Whether a slice ends as expected, with a machine that shows something. -/
def endsAs (outcome : SliceOutcome) (shows : Machine → Bool) :
    EStateM.Result Error Machine SliceOutcome → Bool
  | .ok ended after => ended == outcome && shows after
  | .error _ _ => false

theorem exists_of_endsAs {outcome : SliceOutcome} (shows : Machine → Bool)
    {result : EStateM.Result Error Machine SliceOutcome}
    (ended : endsAs outcome shows result = true) :
    ∃ after, result = .ok outcome after ∧ shows after = true := by
  cases result with
  | ok actual after =>
      obtain ⟨same, shown⟩ := Bool.and_eq_true_iff.mp ended
      exact ⟨after, congrArg (EStateM.Result.ok · after) (beq_iff_eq.mp same), shown⟩
  | error => cases ended

set_option maxRecDepth 20000 in
theorem slice_leaves_others_starting :
    (∃ after, runParkedSlice (Bounds.reentry ⟨2, 1⟩) 3 starting = .ok .yielded after ∧
        starting.Undisturbed 3 [] after ∧ 3 ∈ after.parked.map (·.id)) ∧
      ∃ after, runParkedSlice (Bounds.reentry ⟨2, 1⟩) 3 lasting = .ok (.finished .void) after ∧
        lasting.Undisturbed 3 [3] after ∧ ¬after.Holds 3 := by
  constructor
  · obtain ⟨after, yields, -⟩ : ∃ after, runParkedSlice (Bounds.reentry ⟨2, 1⟩) 3 starting =
        .ok .yielded after ∧ true = true := exists_of_endsAs (fun _ => true) (by decide +kernel)
    have alone := (slice_leaves_others ⟨2, 1⟩ starting 3 numbered_starting (by decide)).1 rfl
    have settles := ends_of_ok yields alone
    exact ⟨after, yields, settles⟩
  · obtain ⟨after, finishes, -⟩ : ∃ after, runParkedSlice (Bounds.reentry ⟨2, 1⟩) 3 lasting =
        .ok (.finished .void) after ∧ true = true :=
      exists_of_endsAs (fun _ => true) (by decide +kernel)
    have numbered : lasting.Numbered := ⟨numbered_starting.distinct, numbered_starting.ended,
      numbered_starting.held, numbered_starting.threads⟩
    have rounds := (slice_leaves_others ⟨2, 1⟩ lasting 3 numbered (by decide)).2 rfl
    have settles := ends_of_ok finishes rounds
    exact ⟨after, finishes, settles⟩

/-- A thread that starts with a native method makes another thread go on. -/
theorem runParkedSlice_starting :
    ∃ after, runParkedSlice (Bounds.reentry ⟨2, 1⟩) 2 starting = .ok .yielded after ∧
      ((after.execution? 3).map (·.pc) == some 1) = true :=
  exists_of_endsAs (fun after => (after.execution? 3).map (·.pc) == some 1) (by decide +kernel)

/-- It is not so that a slice leaves alone every execution but its own. -/
theorem slice_moves_bystander :
    ¬∀ (bounds : Bounds) (machine : Machine) (id other : ExecId) (outcome : SliceOutcome)
      (after : Machine), machine.Numbered → id ≠ machine.exec.id →
      runParkedSlice bounds.reentry id machine = .ok outcome after →
      machine.Holds other → other ≠ id → after.execution? other = machine.execution? other := by
  intro claimed
  obtain ⟨after, ran, moved⟩ := runParkedSlice_starting
  have there : starting.Holds 3 := .inl (by decide)
  have same := claimed ⟨2, 1⟩ starting 2 3 .yielded after numbered_starting (by decide) ran there
    (by decide)
  rw [same] at moved
  exact absurd moved (by decide)

end Host

end Jvm
