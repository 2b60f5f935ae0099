import Jvm.Machine.Host
import Jvm.Proofs.Machine.FrameChain
import Jvm.Proofs.Slicing.Steps

/-!
# Slices of any length

A slice that runs a number of instructions and another one after it run what one slice of
both numbers runs, and a call ends the same in whatever slices it runs. What a run visits are
the machines that its instructions start from.
-/

namespace Jvm

open Machine

theorem Reentry.refuses_ofDepth (fuel depth : Nat) : (Reentry.ofDepth fuel depth).Refuses := by
  cases depth with
  | zero => exact ⟨fun _ => .exhausted, fun _ _ _ _ => rfl⟩
  | succ depth =>
      refine ⟨fun id => .invalidState (.alreadyRunning id), fun method arguments machine busy => ?_⟩
      change Host.enterMethod _ _ method arguments machine = _
      simp only [Host.enterMethod, bind, EStateM.bind, run_get, busy]
      rfl

theorem Bounds.refuses_reentry (bounds : Bounds) : bounds.reentry.Refuses :=
  Reentry.refuses_ofDepth _ _

namespace Host

/-! ## What is visited -/

/-- The machines that the next instructions start from, a number of them at most. -/
def visits (reentry : Reentry) : Nat → Machine → List Machine
  | 0, _ => []
  | budget + 1, machine =>
    machine :: match runStep reentry machine with
      | .ok none after => visits reentry budget after
      | _ => []

/-- What a slice does before its first instruction. -/
def beginSlice (machine : Machine) : Machine :=
  { machine.modifyExec fun exec => { exec with wakeAt := none } with yieldRequested := false }

/-- The machines that the instructions of a slice start from. -/
def sliceVisits (reentry : Reentry) (budget : Nat) (machine : Machine) : List Machine :=
  if machine.exec.isIdle || (machine.exec.wakeAt.filter (machine.now < ·)).isSome then []
  else visits reentry budget (beginSlice machine)

/-- A slice of a call and what follows it; the result, if the call has ended. -/
def turn (reentry : Reentry) : Host (Option Value) := do
  let before := (← get).executed
  match ← runSlice reentry (← get).config.sliceBudget with
  | .finished value => pure (some value)
  | .suspended => throw .exhausted
  | .yielded => do
    betweenSlices reentry before false none
    pure none
  | .blocked => do
    betweenSlices reentry before true none
    pure none
  | .sleeping wakeAt => do
    betweenSlices reentry before false (some wakeAt)
    pure none

/-- A call goes on turn by turn. -/
theorem runToCompletion_succ (reentry : Reentry) (fuel : Nat) :
    runToCompletion reentry (fuel + 1) = (do
      if (← get).terminated then abandon .terminated
      else
        match ← turn reentry with
        | some value => pure value
        | none => runToCompletion reentry fuel) := by
  rw [runToCompletion]
  refine bind_congr fun machine => ?_
  split
  · rfl
  · simp only [turn, bind_assoc]
    refine bind_congr fun _ => bind_congr fun _ => bind_congr fun outcome => ?_
    cases outcome with
    | finished value => rfl
    | suspended => rfl
    | yielded | blocked | sleeping => simp only [bind_assoc, pure_bind]

/-- The machines that the instructions of a call start from. -/
def callVisits (reentry : Reentry) : Nat → Machine → List Machine
  | 0, _ => []
  | fuel + 1, machine =>
    if machine.terminated then []
    else
      sliceVisits reentry machine.config.sliceBudget machine ++
        match turn reentry machine with
        | .ok none after => callVisits reentry fuel after
        | _ => []

/-! ## Slices of steady executions -/

variable {reentry : Reentry} {machine : Machine}

theorem beginSlice_of_steady (steady : machine.Steady) : beginSlice machine = machine := by
  have exec : ({ machine.exec with wakeAt := none } : Execution) = machine.exec := by
    rw [← steady.awake]
  change { machine with exec := ({ machine.exec with wakeAt := none } : Execution)
                        yieldRequested := false } = machine
  rw [exec, ← steady.calm]

theorem runSlice_of_due (running : machine.exec.isIdle = false)
    (due : machine.exec.wakeAt.filter (machine.now < ·) = none) (budget : Nat) :
    runSlice reentry budget machine = runSteps reentry budget (beginSlice machine) := by
  simp only [runSlice, bind, EStateM.bind, run_get, running, Bool.false_eq_true, if_false, due]
  rfl

/-- A slice of a steady execution is nothing but its instructions. -/
theorem runSlice_of_steady (steady : machine.Steady) (running : machine.exec.isIdle = false)
    (budget : Nat) : runSlice reentry budget machine = runSteps reentry budget machine := by
  rw [runSlice_of_due running (by rw [steady.awake]; rfl), beginSlice_of_steady steady]

theorem sliceVisits_of_steady (steady : machine.Steady) (running : machine.exec.isIdle = false)
    (budget : Nat) : sliceVisits reentry budget machine = visits reentry budget machine := by
  rw [sliceVisits, running, steady.awake, beginSlice_of_steady steady]
  rfl

theorem runSteps_of_goesOn {budget : Nat} {after : Machine}
    (ran : runStep reentry machine = .ok none after) :
    runSteps reentry (budget + 1) machine = runSteps reentry budget after :=
  bind_of_ok ran

theorem runSteps_of_ends {budget : Nat} {outcome : SliceOutcome} {after : Machine}
    (ran : runStep reentry machine = .ok (some outcome) after) :
    runSteps reentry (budget + 1) machine = .ok outcome after :=
  bind_of_ok ran

theorem runSteps_of_fails {budget : Nat} {error : Error} {after : Machine}
    (ran : runStep reentry machine = .error error after) :
    runSteps reentry (budget + 1) machine = .error error after := by
  simp only [runSteps, bind, EStateM.bind, ran]

/-- What a run of instructions leaves: an execution that goes on if only the budget is used up. -/
theorem ends_runSteps_steady (refuses : reentry.Refuses) (steady : machine.Steady)
    (running : machine.exec.isIdle = false) {budget : Nat}
    (calls : ∀ visited ∈ visits reentry budget machine, visited.CallsOnly (·.isSteady)) :
    Ends (runSteps reentry budget) machine
      (fun outcome after => machine.Persists after ∧
        (outcome = .yielded → after.exec.isIdle = false) ∧
        ∀ wakeAt, outcome ≠ .sleeping wakeAt)
      fun _ _ => True := by
  induction budget generalizing machine with
  | zero => exact ends_pure.mpr ⟨steady.refl, fun _ => running, nofun⟩
  | succ budget ih =>
      have steps := (steadily_runStep steady refuses (calls machine List.mem_cons_self)).2
      rw [runSteps, ends_bind]
      cases ran : runStep reentry machine with
      | error error after => exact Ends.of_error ran trivial
      | ok outcome after =>
          obtain ⟨continues, proceeds⟩ := ends_of_ok ran steps
          refine Ends.of_ok ran ?_
          cases outcome with
          | none =>
              have later : ∀ visited ∈ visits reentry budget after,
                  visited.CallsOnly (·.isSteady) := by
                intro visited member
                exact calls visited (List.mem_cons_of_mem _ (by rw [ran]; exact member))
              refine Ends.mono (ih continues.steady proceeds later) ?_ fun _ _ _ => trivial
              exact fun _ _ ended => ⟨continues.trans ended.1, ended.2⟩
          | some outcome =>
              refine ends_pure.mpr ⟨continues, ?_, ?_⟩
              · rintro rfl
                exact proceeds.elim
              · rintro wakeAt rfl
                exact proceeds.elim

/-- Instructions of one number and then of another are those of both numbers. -/
theorem runSteps_add (refuses : reentry.Refuses) (steady : machine.Steady) {first : Nat}
    (calls : ∀ visited ∈ visits reentry first machine, visited.CallsOnly (·.isSteady))
    (second : Nat) :
    runSteps reentry (first + second) machine = (do
      match ← runSteps reentry first with
      | .yielded => runSteps reentry second
      | outcome => pure outcome) machine := by
  induction first generalizing machine with
  | zero => rw [Nat.zero_add]; rfl
  | succ first ih =>
      have steps := (steadily_runStep steady refuses (calls machine List.mem_cons_self)).2
      rw [show first + 1 + second = first + second + 1 by omega]
      cases ran : runStep reentry machine with
      | error error after =>
          rw [runSteps_of_fails ran]
          simp only [bind, EStateM.bind, runSteps_of_fails ran]
      | ok outcome after =>
          obtain ⟨continues, proceeds⟩ := ends_of_ok ran steps
          cases outcome with
          | none =>
              have later : ∀ visited ∈ visits reentry first after,
                  visited.CallsOnly (·.isSteady) := by
                intro visited member
                exact calls visited (List.mem_cons_of_mem _ (by rw [ran]; exact member))
              have rest := ih continues.steady later
              simp only [bind, EStateM.bind, runSteps_of_goesOn ran] at rest ⊢
              exact rest
          | some outcome =>
              rw [runSteps_of_ends ran, bind_of_ok (runSteps_of_ends ran)]
              cases outcome with
              | yielded => exact proceeds.elim
              | finished | blocked | suspended | sleeping => rfl

/-- A slice of one number of instructions and then one of another run what one slice of both
numbers runs. -/
theorem runSlice_add (refuses : reentry.Refuses) (detached : machine.debuggerAttached = false)
    {first : Nat}
    (calls : ∀ visited ∈ sliceVisits reentry first machine, visited.CallsOnly (·.isSteady))
    (second : Nat) :
    runSlice reentry (first + second) machine = (do
      match ← runSlice reentry first with
      | .yielded => runSlice reentry second
      | outcome => pure outcome) machine := by
  cases idle : machine.exec.isIdle with
  | true =>
      have fails : ∀ budget, runSlice reentry budget machine =
          .error (.invalidState (.nothingToRun machine.exec.id)) machine := by
        intro budget
        simp only [runSlice, bind, EStateM.bind, run_get, idle, if_true]
        rfl
      simp only [bind, EStateM.bind, fails]
  | false =>
      cases due : machine.exec.wakeAt.filter (machine.now < ·) with
      | some wakeAt =>
          have sleeps : ∀ budget, runSlice reentry budget machine = .ok (.sleeping wakeAt) machine := by
            intro budget
            simp only [runSlice, bind, EStateM.bind, run_get, idle, Bool.false_eq_true, if_false,
              due]
            rfl
          simp only [bind, EStateM.bind, sleeps]
          rfl
      | none =>
          have steady : (beginSlice machine).Steady := ⟨detached, rfl, rfl⟩
          have visited : sliceVisits reentry first machine =
              visits reentry first (beginSlice machine) := by
            rw [sliceVisits, idle, due]
            rfl
          rw [visited] at calls
          have whole := runSteps_add refuses steady calls second
          have ends := ends_runSteps_steady refuses steady idle calls
          simp only [bind, EStateM.bind, runSlice_of_due idle due] at whole ⊢
          rw [whole]
          cases ran : runSteps reentry first (beginSlice machine) with
          | error error after => rfl
          | ok outcome after =>
              obtain ⟨continues, running, -⟩ := ends_of_ok ran ends
              cases outcome with
              | yielded => exact (runSlice_of_steady continues.steady (running rfl) second).symm
              | finished | blocked | suspended | sleeping => rfl

/-! ## Runs of steady executions -/

/-- How the running execution plays out, instruction by instruction: the machines that the
instructions start from, and how the last of them ends. -/
inductive Plays (reentry : Reentry) : Machine → List Machine → EStateM.Result Error Machine Value → Prop
  | returns {machine after : Machine} {value : Value}
      (ran : runStep reentry machine = .ok (some (.finished value)) after) :
      Plays reentry machine [machine] (.ok value after)
  | blocks {machine after : Machine} (ran : runStep reentry machine = .ok (some .blocked) after)
      (continues : machine.Persists after) :
      Plays reentry machine [machine]
        (.error (.invalidState .monitorHeldElsewhere) after.abandonExecution)
  | fails {machine after : Machine} {error : Error} (ran : runStep reentry machine = .error error after) :
      Plays reentry machine [machine] (.error error after)
  | goesOn {machine after : Machine} {rest : List Machine} {result : EStateM.Result Error Machine Value}
      (ran : runStep reentry machine = .ok none after) (continues : machine.Persists after)
      (running : after.exec.isIdle = false) (later : Plays reentry after rest result) :
      Plays reentry machine (machine :: rest) result

/-- What a call makes of the end of some instructions, if that is the end of the call. -/
def conclusion : EStateM.Result Error Machine SliceOutcome → Option (EStateM.Result Error Machine Value)
  | .ok (.finished value) after => some (.ok value after)
  | .ok .blocked after => some (.error (.invalidState .monitorHeldElsewhere) after.abandonExecution)
  | .error error after => some (.error error after)
  | .ok _ _ => none

section

variable (refuses : reentry.Refuses)

include refuses

/-- The instructions of a slice are the first ones of the run that it belongs to. -/
theorem plays_of_runSteps (steady : machine.Steady) {budget : Nat}
    (calls : ∀ visited ∈ visits reentry budget machine, visited.CallsOnly (·.isSteady)) :
    (∀ result, conclusion (runSteps reentry budget machine) = some result →
      Plays reentry machine (visits reentry budget machine) result) ∧
    ∀ after rest result, runSteps reentry budget machine = .ok .yielded after →
      Plays reentry after rest result →
      Plays reentry machine (visits reentry budget machine ++ rest) result := by
  induction budget generalizing machine with
  | zero =>
      have used : runSteps reentry 0 machine = .ok .yielded machine := rfl
      rw [used]
      refine ⟨fun result concluded => ?_, fun after rest result ran later => ?_⟩
      · simp only [conclusion, reduceCtorEq] at concluded
      · cases ran
        exact later
  | succ budget ih =>
      have steps := (steadily_runStep steady refuses (calls machine List.mem_cons_self)).2
      cases ran : runStep reentry machine with
      | error error after =>
          rw [runSteps_of_fails ran, visits, ran]
          refine ⟨fun result concluded => ?_, fun _ _ _ ended => ?_⟩
          · rw [← Option.some.inj concluded]
            exact .fails ran
          · simp only [reduceCtorEq] at ended
      | ok outcome after =>
          obtain ⟨continues, proceeds⟩ := ends_of_ok ran steps
          cases outcome with
          | none =>
              have later : ∀ visited ∈ visits reentry budget after,
                  visited.CallsOnly (·.isSteady) := by
                intro visited member
                exact calls visited (List.mem_cons_of_mem _ (by rw [ran]; exact member))
              obtain ⟨ends, yields⟩ := ih continues.steady later
              rw [runSteps_of_goesOn ran, visits, ran]
              exact ⟨fun result concluded => .goesOn ran continues proceeds (ends result concluded),
                fun last rest result ran' plays =>
                  .goesOn ran continues proceeds (yields last rest result ran' plays)⟩
          | some outcome =>
              rw [runSteps_of_ends ran, visits, ran]
              cases outcome with
              | yielded | sleeping => exact proceeds.elim
              | suspended =>
                  refine ⟨fun result concluded => ?_, fun _ _ _ ended => ?_⟩
                  · simp only [conclusion, reduceCtorEq] at concluded
                  · simp only [EStateM.Result.ok.injEq, reduceCtorEq, false_and] at ended
              | finished value =>
                  refine ⟨fun result concluded => ?_, fun _ _ _ ended => ?_⟩
                  · rw [← Option.some.inj concluded]
                    exact .returns ran
                  · simp only [EStateM.Result.ok.injEq, reduceCtorEq, false_and] at ended
              | blocked =>
                  refine ⟨fun result concluded => ?_, fun _ _ _ ended => ?_⟩
                  · rw [← Option.some.inj concluded]
                    exact .blocks ran continues
                  · simp only [EStateM.Result.ok.injEq, reduceCtorEq, false_and] at ended

/-- A run plays out the same beside another budget. -/
theorem Plays.withBudget {visited : List Machine} {result : EStateM.Result Error Machine Value}
    (plays : Plays reentry machine visited result) (steady : machine.Steady)
    (calls : ∀ place ∈ visited, place.CallsOnly (·.isSteady)) (budget : Nat) :
    Plays reentry (machine.withBudget budget) (visited.map (Machine.withBudget budget))
      (onState (Machine.withBudget budget) result) := by
  induction plays with
  | @returns machine after value ran =>
      have same := (steadily_runStep steady refuses (calls machine List.mem_cons_self)).1 budget
      rw [Commutes, ran] at same
      exact .returns same
  | @blocks machine after ran continues =>
      have same := (steadily_runStep steady refuses (calls machine List.mem_cons_self)).1 budget
      rw [Commutes, ran] at same
      have gives := withBudget_of_veil (fun veil machine => machine.abandonExecution_veil) budget after
      rw [onState, ← gives]
      exact .blocks same ⟨by rw [Machine.withBudget, continues.config]; rfl, continues.guestThreads,
        continues.steady.detached, continues.steady.calm, continues.steady.awake⟩
  | @fails machine after error ran =>
      have same := (steadily_runStep steady refuses (calls machine List.mem_cons_self)).1 budget
      rw [Commutes, ran] at same
      exact .fails same
  | @goesOn machine after rest result ran continues running later ih =>
      have same := (steadily_runStep steady refuses (calls machine List.mem_cons_self)).1 budget
      rw [Commutes, ran] at same
      refine .goesOn same ⟨by rw [Machine.withBudget, continues.config]; rfl, continues.guestThreads,
        continues.steady.detached, continues.steady.calm, continues.steady.awake⟩ running ?_
      exact ih continues.steady fun place member => calls place (List.mem_cons_of_mem _ member)

end

/-! ## Calls of steady executions -/

theorem betweenSlices_of_alone (alone : machine.guestThreads = []) (before : Nat) :
    betweenSlices reentry before false none machine = .ok () machine := by
  simp only [betweenSlices, bind, EStateM.bind, run_get, alone, List.isEmpty_nil, if_true]
  rfl

theorem betweenSlices_of_blocked (alone : machine.guestThreads = []) (before : Nat) :
    betweenSlices reentry before true none machine =
      .error (.invalidState .monitorHeldElsewhere) machine.abandonExecution := by
  simp only [betweenSlices, bind, EStateM.bind, run_get, alone, List.isEmpty_nil, if_true]
  rfl

/-- A call that runs a number of instructions first. -/
def callFrom (reentry : Reentry) (budget fuel : Nat) : Host Value := do
  match ← runSteps reentry budget with
  | .finished value => pure value
  | .yielded => runToCompletion reentry fuel
  | .blocked => abandon (.invalidState .monitorHeldElsewhere)
  | .suspended | .sleeping _ => throw .exhausted

/-- The machines that its instructions start from. -/
def visitsFrom (reentry : Reentry) (budget fuel : Nat) (machine : Machine) : List Machine :=
  visits reentry budget machine ++
    match runSteps reentry budget machine with
    | .ok .yielded after => callVisits reentry fuel after
    | _ => []

/-- How the slices of a steady execution end. -/
def GoesOn (before : Machine) (outcome : SliceOutcome) (after : Machine) : Prop :=
  match outcome with
  | .finished _ | .suspended => True
  | .yielded => before.Persists after ∧ after.exec.isIdle = false
  | .blocked => before.Persists after
  | .sleeping _ => False

section

variable (reentry) (steady : machine.Steady) (alone : machine.guestThreads = [])
  (running : machine.exec.isIdle = false) (live : machine.terminated = false)

include steady alone running live

/-- A turn of a steady execution that is alone is a slice and nothing else. -/
theorem runToCompletion_of_steady
    (stays : Ends (runSteps reentry machine.config.sliceBudget) machine (GoesOn machine)
      fun _ _ => True) (fuel : Nat) :
    runToCompletion reentry (fuel + 1) machine =
        callFrom reentry machine.config.sliceBudget fuel machine ∧
      callVisits reentry (fuel + 1) machine =
        visitsFrom reentry machine.config.sliceBudget fuel machine := by
  have slice : runSlice reentry machine.config.sliceBudget machine = _ :=
    runSlice_of_steady steady running _
  have visited : sliceVisits reentry machine.config.sliceBudget machine = _ :=
    sliceVisits_of_steady steady running _
  rw [runToCompletion_succ, callVisits, visited, visitsFrom, callFrom]
  cases ran : runSteps reentry machine.config.sliceBudget machine with
  | error error after =>
      have turned : turn reentry machine = .error error after := by
        simp only [turn, bind, EStateM.bind, run_get, slice, ran]
      simp only [bind, EStateM.bind, run_get, live, turned, ran, Bool.false_eq_true, if_false,
        and_self]
  | ok outcome after =>
      have stayed := ends_of_ok ran stays
      cases outcome with
      | sleeping wakeAt => exact stayed.elim
      | finished value =>
          have turned : turn reentry machine = .ok (some value) after := by
            simp only [turn, bind, EStateM.bind, run_get, slice, ran]
            rfl
          simp only [bind, EStateM.bind, run_get, live, turned, ran, Bool.false_eq_true, if_false,
            and_self]
      | suspended =>
          have turned : turn reentry machine = .error .exhausted after := by
            simp only [turn, bind, EStateM.bind, run_get, slice, ran]
            rfl
          simp only [bind, EStateM.bind, run_get, live, turned, ran, Bool.false_eq_true, if_false,
            and_true]
          rfl
      | yielded =>
          have between : betweenSlices reentry machine.executed false none after = .ok () after :=
            betweenSlices_of_alone (stayed.1.guestThreads.trans alone) _
          have turned : turn reentry machine = .ok none after := by
            simp only [turn, bind, EStateM.bind, run_get, slice, ran, between]
            rfl
          simp only [bind, EStateM.bind, run_get, live, turned, ran, Bool.false_eq_true, if_false,
            and_self]
      | blocked =>
          have between : betweenSlices reentry machine.executed true none after = _ :=
            betweenSlices_of_blocked (stayed.guestThreads.trans alone) _
          have turned : turn reentry machine =
              .error (.invalidState .monitorHeldElsewhere) after.abandonExecution := by
            simp only [turn, bind, EStateM.bind, run_get, slice, ran, between]
          simp only [bind, EStateM.bind, run_get, live, turned, ran, Bool.false_eq_true, if_false,
            and_true]
          rfl

end

/-- A call that is asked to end does so before its next slice. -/
theorem runToCompletion_of_terminated (asked : machine.terminated = true) (fuel : Nat) :
    runToCompletion reentry (fuel + 1) machine = .error .terminated machine.abandonExecution := by
  rw [runToCompletion_succ]
  simp only [bind, EStateM.bind, run_get, asked, if_true]
  rfl

/-- How a call plays out. -/
theorem plays_of_runToCompletion (refuses : reentry.Refuses) {fuel : Nat} (steady : machine.Steady)
    (alone : machine.guestThreads = []) (running : machine.exec.isIdle = false)
    (budget : 0 < machine.config.sliceBudget)
    (calls : ∀ visited ∈ callVisits reentry fuel machine, visited.CallsOnly (·.isSteady))
    (ends : ∀ error after, runToCompletion reentry fuel machine = .error error after →
      error ≠ .exhausted ∧ error ≠ .terminated) :
    Plays reentry machine (callVisits reentry fuel machine)
      (runToCompletion reentry fuel machine) := by
  induction fuel generalizing machine with
  | zero => exact absurd rfl (ends _ machine rfl).1
  | succ fuel ih =>
      cases live : machine.terminated with
      | true =>
          exact absurd rfl (ends _ _ (runToCompletion_of_terminated live fuel)).2
      | false =>
          have first : ∀ visited ∈ visits reentry machine.config.sliceBudget machine,
              visited.CallsOnly (·.isSteady) := by
            intro visited member
            apply calls
            rw [callVisits, live, sliceVisits_of_steady steady running]
            exact List.mem_append_left _ member
          obtain ⟨concludes, yields⟩ := plays_of_runSteps refuses steady first
          have ended := ends_runSteps_steady refuses steady running first
          have stays : Ends (runSteps reentry machine.config.sliceBudget) machine (GoesOn machine)
              fun _ _ => True := by
            refine Ends.mono ended (fun outcome after reached => ?_) fun _ _ _ => trivial
            obtain ⟨continues, runs, awake⟩ := reached
            cases outcome with
            | finished | suspended => trivial
            | yielded => exact ⟨continues, runs rfl⟩
            | blocked => exact continues
            | sleeping wakeAt => exact awake wakeAt rfl
          obtain ⟨call, visited⟩ := runToCompletion_of_steady reentry steady alone running live stays fuel
          rw [call] at ends ⊢
          rw [visited] at calls ⊢
          simp only [callFrom, visitsFrom, bind, EStateM.bind] at ends calls ⊢
          cases ran : runSteps reentry machine.config.sliceBudget machine with
          | error error after =>
              simp only [List.append_nil]
              exact concludes _ (by rw [ran]; rfl)
          | ok outcome after =>
              have stayed := ends_of_ok ran stays
              simp only [ran] at ends calls ⊢
              cases outcome with
              | finished value =>
                  simp only [List.append_nil]
                  exact concludes _ (by rw [ran]; rfl)
              | blocked =>
                  simp only [List.append_nil]
                  exact concludes _ (by rw [ran]; rfl)
              | suspended => exact absurd rfl (ends _ after rfl).1
              | sleeping wakeAt => exact stayed.elim
              | yielded =>
                  refine yields after _ _ ran (ih stayed.1.steady (stayed.1.guestThreads.trans alone)
                    stayed.2 (by rw [stayed.1.config]; exact budget) ?_ ends)
                  exact fun place member => calls place (List.mem_append_right _ member)

theorem goesOn_trans {first second last : Machine} (continues : first.Persists second)
    {outcome : SliceOutcome} (stays : GoesOn second outcome last) : GoesOn first outcome last := by
  cases outcome with
  | finished | suspended => trivial
  | yielded => exact ⟨continues.trans stays.1, stays.2⟩
  | blocked => exact continues.trans stays
  | sleeping => exact stays

theorem Plays.ends_runSteps {visited : List Machine} {result : EStateM.Result Error Machine Value}
    (plays : Plays reentry machine visited result) (steady : machine.Steady)
    (running : machine.exec.isIdle = false) (budget : Nat) :
    Ends (runSteps reentry budget) machine (GoesOn machine) fun _ _ => True := by
  induction plays generalizing budget with
  | returns ran =>
      cases budget with
      | zero => exact ends_pure.mpr ⟨steady.refl, running⟩
      | succ budget => exact Ends.of_ok (runSteps_of_ends ran) trivial
  | blocks ran continues =>
      cases budget with
      | zero => exact ends_pure.mpr ⟨steady.refl, running⟩
      | succ budget => exact Ends.of_ok (runSteps_of_ends ran) continues
  | fails ran =>
      cases budget with
      | zero => exact ends_pure.mpr ⟨steady.refl, running⟩
      | succ budget => exact Ends.of_error (runSteps_of_fails ran) trivial
  | goesOn ran continues runs later ih =>
      cases budget with
      | zero => exact ends_pure.mpr ⟨steady.refl, running⟩
      | succ budget =>
          have last := Ends.mono (ih continues.steady runs budget)
            (fun outcome last stayed => goesOn_trans continues stayed) fun _ _ _ => trivial
          simpa only [Ends, runSteps_of_goesOn ran] using last

/-- A run plays out in slices of any budget. -/
theorem Plays.exists_runToCompletion {visited : List Machine}
    {result : EStateM.Result Error Machine Value} (plays : Plays reentry machine visited result)
    (steady : machine.Steady) (alone : machine.guestThreads = [])
    (running : machine.exec.isIdle = false) (budget : 0 < machine.config.sliceBudget)
    (live : ∀ place ∈ visited, place.terminated = false) :
    ∃ fuel, runToCompletion reentry fuel machine = result ∧
      callVisits reentry fuel machine = visited := by
  have starts : ∀ {machine : Machine} {visited result}, Plays reentry machine visited result →
      machine.Steady → machine.guestThreads = [] → machine.exec.isIdle = false →
      0 < machine.config.sliceBudget → (∀ place ∈ visited, place.terminated = false) →
      (∀ budget, ∃ fuel, callFrom reentry (budget + 1) fuel machine = result ∧
        visitsFrom reentry (budget + 1) fuel machine = visited) →
      ∃ fuel, runToCompletion reentry fuel machine = result ∧
        callVisits reentry fuel machine = visited := by
    intro machine visited result plays steady alone running budget live from'
    obtain ⟨fuel, call, places⟩ := from' (machine.config.sliceBudget - 1)
    rw [Nat.sub_add_cancel budget] at call places
    have current : machine.terminated = false := by
      cases plays <;> exact live _ List.mem_cons_self
    obtain ⟨turned, seen⟩ := runToCompletion_of_steady reentry steady alone running
      current (plays.ends_runSteps steady running _) fuel
    exact ⟨fuel + 1, turned.trans call, seen.trans places⟩
  refine starts plays steady alone running budget live ?_
  induction plays with
  | returns ran =>
      refine fun budget => ⟨0, bind_of_ok (runSteps_of_ends ran), ?_⟩
      rw [visitsFrom, visits, runSteps_of_ends ran, ran]
      rfl
  | blocks ran continues =>
      refine fun budget => ⟨0, bind_of_ok (runSteps_of_ends ran), ?_⟩
      rw [visitsFrom, visits, runSteps_of_ends ran, ran]
      rfl
  | fails ran =>
      refine fun budget => ⟨0, ?_, ?_⟩
      · simp only [callFrom, bind, EStateM.bind, runSteps_of_fails ran]
      · rw [visitsFrom, visits, runSteps_of_fails ran, ran]
        rfl
  | @goesOn machine after rest result ran continues runs later ih =>
      have further := ih continues.steady (continues.guestThreads.trans alone) runs
        (by rw [continues.config]; exact budget)
        fun place member => live place (List.mem_cons_of_mem _ member)
      have moves : ∀ {budget fuel : Nat}, callFrom reentry budget fuel after = result →
          visitsFrom reentry budget fuel after = rest →
          callFrom reentry (budget + 1) fuel machine = result ∧
            visitsFrom reentry (budget + 1) fuel machine = machine :: rest := by
        intro budget fuel call places
        refine ⟨?_, ?_⟩
        · rw [← call]
          simp only [callFrom, bind, EStateM.bind, runSteps_of_goesOn ran]
        · rw [← places]
          simp only [visitsFrom, visits, runSteps_of_goesOn ran, ran, List.cons_append]
      intro more
      cases more with
      | succ more =>
          obtain ⟨fuel, call, places⟩ := further more
          exact ⟨fuel, moves call places⟩
      | zero =>
          obtain ⟨fuel, call, places⟩ := starts later continues.steady
            (continues.guestThreads.trans alone) runs (by rw [continues.config]; exact budget)
            (fun place member => live place (List.mem_cons_of_mem _ member)) further
          exact ⟨fuel, moves call places⟩

/-- A call on an execution that has nothing to run fails before its first instruction. -/
theorem runToCompletion_of_idle (reentry : Reentry) (idle : machine.exec.isIdle = true)
    (live : machine.terminated = false) (fuel : Nat) :
    runToCompletion reentry (fuel + 1) machine =
        .error (.invalidState (.nothingToRun machine.exec.id)) machine ∧
      callVisits reentry (fuel + 1) machine = [] := by
  have faults : ∀ budget, runSlice reentry budget machine =
      .error (.invalidState (.nothingToRun machine.exec.id)) machine := by
    intro budget
    simp only [runSlice, bind, EStateM.bind, run_get, idle, if_true]
    rfl
  have turned : turn reentry machine =
      .error (.invalidState (.nothingToRun machine.exec.id)) machine := by
    simp only [turn, bind, EStateM.bind, run_get, faults]
  rw [runToCompletion_succ, callVisits, sliceVisits, idle, turned, live]
  refine ⟨?_, rfl⟩
  simp only [bind, EStateM.bind, run_get, live, turned, Bool.false_eq_true, if_false]

/-- Slicing changes nothing. Without a debugger, and if no native starts a thread or ends a
slice, slices of two numbers of instructions run what one slice of both numbers runs, and a
call that ends with one budget for its slices ends the same with any other one: its
instructions start from the same machines, and the machine that it leaves is the same, but
for the budget. -/
theorem slicing_changes_nothing (bounds : Bounds) (machine : Machine) (steady : machine.Steady)
    (alone : machine.guestThreads = []) :
    (∀ first second, (∀ visited ∈ sliceVisits bounds.reentry first machine,
        visited.CallsOnly (·.isSteady)) →
      runSlice bounds.reentry (first + second) machine = (do
        match ← runSlice bounds.reentry first with
        | .yielded => runSlice bounds.reentry second
        | outcome => pure outcome) machine) ∧
    ∀ first second fuel, 0 < first → 0 < second →
      (∀ visited ∈ callVisits bounds.reentry fuel (machine.withBudget first),
        visited.CallsOnly (·.isSteady) ∧ visited.terminated = false) →
      (∀ error after, runToCompletion bounds.reentry fuel (machine.withBudget first) =
        .error error after → error ≠ .exhausted ∧ error ≠ .terminated) →
      ∃ fuel', runToCompletion bounds.reentry fuel' (machine.withBudget second) =
          onState (withBudget second)
            (runToCompletion bounds.reentry fuel (machine.withBudget first)) ∧
        callVisits bounds.reentry fuel' (machine.withBudget second) =
          (callVisits bounds.reentry fuel (machine.withBudget first)).map
            (Machine.withBudget second) := by
  have refuses := bounds.refuses_reentry
  refine ⟨fun first second calls => runSlice_add refuses steady.detached calls second, ?_⟩
  intro first second fuel positive positive' visited ends
  have steady' : (machine.withBudget first).Steady := ⟨steady.detached, steady.calm, steady.awake⟩
  cases idle : machine.exec.isIdle with
  | true =>
      cases fuel with
      | zero => exact absurd rfl (ends _ _ rfl).1
      | succ fuel =>
          have idle' : ∀ budget, (machine.withBudget budget).exec.isIdle = true := fun _ => idle
          cases live : machine.terminated with
          | true =>
              have asked : (machine.withBudget first).terminated = true := live
              exact absurd rfl (ends _ _ (runToCompletion_of_terminated asked fuel)).2
          | false =>
              have live' : ∀ budget, (machine.withBudget budget).terminated = false := fun _ => live
              obtain ⟨ended, places⟩ := runToCompletion_of_idle bounds.reentry (idle' first)
                (live' first) fuel
              obtain ⟨ended', places'⟩ := runToCompletion_of_idle bounds.reentry (idle' second)
                (live' second) 0
              refine ⟨1, ?_, ?_⟩
              · rw [ended, ended']
                rfl
              · rw [places, places']
                rfl
  | false =>
      have plays := plays_of_runToCompletion refuses steady' alone idle positive
        (fun place member => (visited place member).1) ends
      have other := plays.withBudget refuses steady' (fun place member => (visited place member).1) second
      have live : ∀ place ∈ (callVisits bounds.reentry fuel (machine.withBudget first)).map
          (Machine.withBudget second), place.terminated = false := by
        intro place member
        obtain ⟨before, known, rfl⟩ := List.mem_map.mp member
        exact (visited before known).2
      exact other.exists_runToCompletion ⟨steady.detached, steady.calm, steady.awake⟩ alone idle
        positive' live

/-- A machine in a frame that passes over an instruction and then returns, in slices of one
instruction. -/
def passing : Machine := (within #[0x00, 0xB1] []).withBudget 1

/-- The machine after the first instruction. -/
def passed : Machine := passing.countStep.modifyExec fun exec => { exec with pc := 1 }

set_option maxRecDepth 8000 in
theorem callVisits_passing : callVisits (Bounds.reentry {}) 2 passing = [passing, passed] := rfl

set_option maxRecDepth 8000 in
theorem callsOnly_passing : ∀ visited ∈ [passing, passed], visited.CallsOnly (·.isSteady) := by
  have first : Guest.calledNext (passing.modifyHeap Heap.clearPending) = .ok none passing := rfl
  have second : Guest.calledNext (passed.modifyHeap Heap.clearPending) = .ok none passed := rfl
  refine List.forall_mem_cons.mpr ⟨fun _ => Ends.of_ok first nofun, ?_⟩
  exact List.forall_mem_singleton.mpr fun _ => Ends.of_ok second nofun

set_option maxRecDepth 8000 in
theorem slicing_changes_nothing_passing :
    (∃ after, runToCompletion (Bounds.reentry {}) 2 passing = .ok .void after ∧
      ∃ fuel, runToCompletion (Bounds.reentry {}) fuel (passing.withBudget 2) =
          .ok .void (after.withBudget 2) ∧
        callVisits (Bounds.reentry {}) fuel (passing.withBudget 2) =
          [passing.withBudget 2, passed.withBudget 2]) ∧
      runSlice (Bounds.reentry {}) (1 + 1) passing = (do
        match ← runSlice (Bounds.reentry {}) 1 with
        | .yielded => runSlice (Bounds.reentry {}) 1
        | outcome => pure outcome) passing := by
  have sliced : sliceVisits (Bounds.reentry {}) 1 passing = [passing] := rfl
  obtain ⟨adds, resliced⟩ := slicing_changes_nothing {} passing ⟨rfl, rfl, rfl⟩ rfl
  have places : ∀ visited ∈ callVisits (Bounds.reentry {}) 2 (passing.withBudget 1),
      visited.CallsOnly (·.isSteady) ∧ visited.terminated = false := by
    have known : callVisits (Bounds.reentry {}) 2 (passing.withBudget 1) = [passing, passed] :=
      callVisits_passing
    rw [known]
    intro visited member
    refine ⟨callsOnly_passing visited member, ?_⟩
    obtain rfl | later := List.mem_cons.mp member
    · rfl
    · rw [List.mem_singleton.mp later]
      rfl
  have ran : ∃ after, runToCompletion (Bounds.reentry {}) 2 passing = .ok .void after := ⟨_, rfl⟩
  obtain ⟨after, ended⟩ := ran
  have ended' : runToCompletion (Bounds.reentry {}) 2 (passing.withBudget 1) = .ok .void after := ended
  obtain ⟨fuel, same, seen⟩ := resliced 1 2 2 Nat.one_pos Nat.two_pos places
    fun error last failed => by cases ended'.symm.trans failed
  rw [ended'] at same
  refine ⟨⟨after, ended, fuel, same, seen.trans (congrArg _ callVisits_passing)⟩, adds 1 1 ?_⟩
  rw [sliced]
  exact List.forall_mem_singleton.mpr (callsOnly_passing _ List.mem_cons_self)

end Host

end Jvm
