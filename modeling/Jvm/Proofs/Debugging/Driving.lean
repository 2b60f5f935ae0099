import Jvm.Proofs.Slicing.Budgets

/-!
# Driving a debugged execution

A host gives an execution slice after slice. When it is stopped the host lets it go on or
asks for a step, and when it sleeps the host waits. In slices of any number of instructions
an execution ends as it does in slices of one, and it does so whether another execution waits
for it or it waits for another one between its slices.
-/

namespace Jvm

open Machine

/-- What a host asks of an execution that is stopped. -/
inductive Command where
  | resume
  | step (mode : StepMode)
  deriving DecidableEq

/-- The debugger once the host has asked. -/
def Debugger.obey (debugger : Debugger) : Command → Debugger
  | .resume => debugger.resume.2
  | .step mode => (debugger.takeStep mode).toOption.getD debugger

namespace Host

/-- What a host does between two slices: an execution that is stopped gets the next of some
commands, and one that sleeps is waited for. The commands that are left, and the machine. -/
def attend (commands : Nat → Command) (outcome : SliceOutcome) (machine : Machine) :
    (Nat → Command) × Machine :=
  match outcome with
  | .suspended =>
    (fun index => commands (index + 1),
      { machine with debugger := machine.debugger.obey (commands 0) })
  | .sleeping wakeAt => (commands, machine.sleepUntil wakeAt)
  | .finished _ | .yielded | .blocked => (commands, machine)

/-- How slice after slice ends what it drives, and the machine that is left. -/
inductive Drives (slice : Host SliceOutcome) :
    (Nat → Command) → Machine → Except Error Value → Machine → Prop
  | finishes {commands : Nat → Command} {machine after : Machine} {value : Value}
      (ran : slice machine = .ok (.finished value) after) :
      Drives slice commands machine (.ok value) after
  | fails {commands : Nat → Command} {machine after : Machine} {error : Error}
      (ran : slice machine = .error error after) :
      Drives slice commands machine (.error error) after
  | goesOn {commands : Nat → Command} {machine between after : Machine} {outcome : SliceOutcome}
      {ended : Except Error Value} (ran : slice machine = .ok outcome between)
      (unfinished : ∀ value, outcome ≠ .finished value)
      (later : Drives slice (attend commands outcome between).1
        (attend commands outcome between).2 ended after) :
      Drives slice commands machine ended after

/-- A slice of the running execution, unless the machine is asked to end. -/
def sliceFor (reentry : Reentry) (budget : Nat) : Host SliceOutcome := fun machine =>
  if machine.terminated then .error .terminated machine.abandonExecution
  else runSlice reentry budget machine

/-- Whether what follows a slice ends what is driven in a way. -/
def Concludes (slice : Host SliceOutcome) (commands : Nat → Command)
    (ended : Except Error Value) (after : Machine) :
    EStateM.Result Error Machine SliceOutcome → Prop
  | .ok (.finished value) between => ended = .ok value ∧ after = between
  | .ok outcome between =>
    Drives slice (attend commands outcome between).1 (attend commands outcome between).2 ended
      after
  | .error error between => ended = .error error ∧ after = between

section

variable {slice : Host SliceOutcome} {commands : Nat → Command} {machine after between : Machine}
  {ended : Except Error Value} {outcome : SliceOutcome}

theorem concludes_of_unfinished (unfinished : ∀ value, outcome ≠ .finished value) :
    Concludes slice commands ended after (.ok outcome between) ↔
      Drives slice (attend commands outcome between).1 (attend commands outcome between).2 ended
        after := by
  cases outcome with
  | finished value => exact absurd rfl (unfinished value)
  | yielded | blocked | suspended | sleeping => rfl

/-- Driving is a slice and what follows it. -/
theorem drives_iff : Drives slice commands machine ended after ↔
    Concludes slice commands ended after (slice machine) := by
  constructor
  · intro drives
    cases drives with
    | finishes ran =>
        rw [ran]
        exact ⟨rfl, rfl⟩
    | fails ran =>
        rw [ran]
        exact ⟨rfl, rfl⟩
    | goesOn ran unfinished later =>
        rw [ran]
        exact (concludes_of_unfinished unfinished).mpr later
  · intro concludes
    cases ran : slice machine with
    | error error left =>
        rw [ran] at concludes
        obtain ⟨rfl, rfl⟩ := concludes
        exact .fails ran
    | ok outcome left =>
        rw [ran] at concludes
        by_cases finished : ∃ value, outcome = .finished value
        · obtain ⟨value, rfl⟩ := finished
          obtain ⟨rfl, rfl⟩ := concludes
          exact .finishes ran
        · have unfinished : ∀ value, outcome ≠ .finished value :=
            fun value same => finished ⟨value, same⟩
          exact .goesOn ran unfinished ((concludes_of_unfinished unfinished).mp concludes)

end

/-! ## Slices of any length -/

/-- Whether a property lasts while an execution is driven, one instruction after the other. -/
structure Lasts (reentry : Reentry) (property : Machine → Prop) : Prop where
  lives : ∀ {machine}, property machine → machine.terminated = false
  running : ∀ {machine}, property machine → machine.exec.isIdle = false
  due : ∀ {machine}, property machine → machine.exec.wakeAt.filter (machine.now < ·) = none
  begun : ∀ {machine}, property machine → property (beginSlice machine)
  goesOn : ∀ {machine after}, property machine →
    runStep reentry (beginSlice machine) = .ok none after →
      property after ∧ beginSlice after = after
  attended : ∀ {machine outcome after}, property machine →
    runStep reentry (beginSlice machine) = .ok (some outcome) after →
      (∀ value, outcome ≠ .finished value) →
        ∀ commands, property (attend commands outcome after).2

namespace Lasts

variable {reentry : Reentry} {property : Machine → Prop} (lasts : Lasts reentry property)
  {commands : Nat → Command} {machine after : Machine} {ended : Except Error Value}

include lasts

/-- A slice is nothing but its instructions. -/
theorem sliceFor_eq (holds : property machine) (budget : Nat) :
    sliceFor reentry budget machine = runSteps reentry budget (beginSlice machine) := by
  rw [sliceFor, if_neg (by rw [lasts.lives holds]; exact Bool.false_ne_true),
    runSlice_of_due (lasts.running holds) (lasts.due holds)]

theorem sliceFor_one (holds : property machine) : sliceFor reentry 1 machine =
    match runStep reentry (beginSlice machine) with
    | .ok none after => .ok .yielded after
    | .ok (some outcome) after => .ok outcome after
    | .error error after => .error error after := by
  rw [lasts.sliceFor_eq holds]
  cases ran : runStep reentry (beginSlice machine) with
  | error error after => exact runSteps_of_fails ran
  | ok outcome after =>
      cases outcome with
      | none => exact runSteps_of_goesOn ran
      | some outcome => exact runSteps_of_ends ran

/-- What comes after some more instructions comes after them one by one. -/
theorem singly_of_concludes (holds : property machine) (count : Nat)
    (concludes : Concludes (sliceFor reentry 1) commands ended after
      (runSteps reentry count (beginSlice machine))) :
    Drives (sliceFor reentry 1) commands machine ended after := by
  rw [drives_iff]
  induction count generalizing machine with
  | zero =>
      have same : sliceFor reentry 1 (beginSlice machine) = sliceFor reentry 1 machine :=
        (lasts.sliceFor_eq (lasts.begun holds) 1).trans (lasts.sliceFor_eq holds 1).symm
      rw [← same, ← drives_iff]
      exact concludes
  | succ count ih =>
      rw [lasts.sliceFor_one holds]
      cases ran : runStep reentry (beginSlice machine) with
      | error error left =>
          rw [runSteps_of_fails ran] at concludes
          exact concludes
      | ok outcome left =>
          cases outcome with
          | some outcome =>
              rw [runSteps_of_ends ran] at concludes
              exact concludes
          | none =>
              obtain ⟨kept, begun⟩ := lasts.goesOn holds ran
              rw [runSteps_of_goesOn ran, ← begun] at concludes
              exact drives_iff.mpr (ih kept concludes)

/-- A part of a slice that is over is followed by a whole one. -/
theorem concludes_of_whole {budget : Nat} (holds : property machine)
    (later : ∀ count, Concludes (sliceFor reentry (budget + 1)) commands ended after
      (runSteps reentry (count + 1) (beginSlice machine))) (count : Nat) :
    Concludes (sliceFor reentry (budget + 1)) commands ended after
      (runSteps reentry count (beginSlice machine)) := by
  cases count with
  | succ count => exact later count
  | zero =>
      have starts : Drives (sliceFor reentry (budget + 1)) commands (beginSlice machine) ended
          after := by
        rw [drives_iff, lasts.sliceFor_eq (lasts.begun holds)]
        exact later budget
      exact starts

/-- What is driven one by one is driven in slices, the first of which may be any part of one. -/
theorem concludes_of_singly {budget : Nat}
    (drives : Drives (sliceFor reentry 1) commands machine ended after)
    (holds : property machine) (count : Nat) :
    Concludes (sliceFor reentry (budget + 1)) commands ended after
      (runSteps reentry count (beginSlice machine)) := by
  induction drives generalizing count with
  | finishes ran =>
      refine lasts.concludes_of_whole holds (fun count => ?_) count
      rw [lasts.sliceFor_one holds] at ran
      split at ran
      next => cases ran
      next step =>
          cases ran
          rw [runSteps_of_ends step]
          exact ⟨rfl, rfl⟩
      next => cases ran
  | fails ran =>
      refine lasts.concludes_of_whole holds (fun count => ?_) count
      rw [lasts.sliceFor_one holds] at ran
      split at ran
      next => cases ran
      next => cases ran
      next step =>
          cases ran
          rw [runSteps_of_fails step]
          exact ⟨rfl, rfl⟩
  | @goesOn commands _ _ _ _ _ ran unfinished later ih =>
      refine lasts.concludes_of_whole holds (fun count => ?_) count
      rw [lasts.sliceFor_one holds] at ran
      split at ran
      next step =>
          cases ran
          obtain ⟨kept, begun⟩ := lasts.goesOn holds step
          rw [runSteps_of_goesOn step, ← begun]
          exact ih kept count
      next step =>
          cases ran
          rw [runSteps_of_ends step, concludes_of_unfinished unfinished, drives_iff]
          have kept := lasts.attended holds step unfinished commands
          rw [lasts.sliceFor_eq kept]
          exact ih kept _
      next => cases ran

/-- The property holds again when the next slice starts. -/
theorem ends_runSteps (holds : property machine) (count : Nat) :
    Ends (runSteps reentry count) (beginSlice machine)
      (fun outcome left => (∀ value, outcome ≠ .finished value) →
        ∀ commands, property (attend commands outcome left).2)
      fun _ _ => True := by
  induction count generalizing machine with
  | zero => exact ends_pure.mpr fun _ _ => lasts.begun holds
  | succ count ih =>
      rw [runSteps, ends_bind]
      refine (ends_self (runStep reentry) (beginSlice machine)).mono ?_ fun _ _ _ => trivial
      intro outcome left ran
      cases outcome with
      | some outcome => exact ends_pure.mpr fun unfinished => lasts.attended holds ran unfinished
      | none =>
          obtain ⟨kept, begun⟩ := lasts.goesOn holds ran
          rw [← begun]
          exact ih kept

/-- What is driven in slices is driven one by one. -/
theorem singly_of_drives {budget : Nat}
    (drives : Drives (sliceFor reentry budget) commands machine ended after)
    (holds : property machine) : Drives (sliceFor reentry 1) commands machine ended after := by
  induction drives with
  | finishes ran =>
      rw [lasts.sliceFor_eq holds] at ran
      exact lasts.singly_of_concludes holds budget (by rw [ran]; exact ⟨rfl, rfl⟩)
  | fails ran =>
      rw [lasts.sliceFor_eq holds] at ran
      exact lasts.singly_of_concludes holds budget (by rw [ran]; exact ⟨rfl, rfl⟩)
  | @goesOn commands _ _ _ _ _ ran unfinished later ih =>
      rw [lasts.sliceFor_eq holds] at ran
      have kept := ends_of_ok ran (lasts.ends_runSteps holds budget) unfinished commands
      refine lasts.singly_of_concludes holds budget ?_
      rw [ran, concludes_of_unfinished unfinished]
      exact ih kept

/-- In slices of no instruction nothing ends. -/
theorem positive_of_drives {budget : Nat}
    (drives : Drives (sliceFor reentry budget) commands machine ended after)
    (holds : property machine) : 0 < budget := by
  refine Nat.pos_of_ne_zero fun empty => ?_
  subst empty
  induction drives with
  | finishes ran | fails ran =>
      rw [lasts.sliceFor_eq holds] at ran
      cases ran
  | @goesOn commands _ _ _ _ _ ran unfinished later ih =>
      rw [lasts.sliceFor_eq holds] at ran
      exact ih (ends_of_ok ran (lasts.ends_runSteps holds 0) unfinished commands)

/-- What is driven one by one is driven in slices. -/
theorem drives_of_singly {budget : Nat} (positive : 0 < budget)
    (drives : Drives (sliceFor reentry 1) commands machine ended after)
    (holds : property machine) :
    Drives (sliceFor reentry budget) commands machine ended after := by
  obtain ⟨budget, rfl⟩ := Nat.exists_eq_add_of_lt positive
  rw [Nat.zero_add, drives_iff, lasts.sliceFor_eq holds]
  exact lasts.concludes_of_singly drives holds _

end Lasts

/-! ## Slices of parked executions -/

/-- Whether a property lasts, and of machines in which one other execution waits for the
running one. -/
structure Stays (reentry : Reentry) (property : Machine → Prop) (other : Execution) (id : ExecId)
    (budget : Nat) : Prop extends Lasts reentry property where
  budget_eq : ∀ {machine}, property machine → machine.config.sliceBudget = budget
  uncompleted : ∀ {machine}, property machine → machine.takeCompleted id = none
  waits : ∀ {machine}, property machine → machine.parked = [other] ∧ machine.exec.id = id
  left : ∀ {machine}, property machine → Ends (runStep reentry) (beginSlice machine)
    (fun _ after => after.parked = [other] ∧ after.exec.id = id)
    fun _ after => after.parked = [other] ∧ after.exec.id = id

end Host

namespace Machine

/-- A machine in which the running execution waits and another one runs. -/
def parkBehind (machine : Machine) (other : Execution) : Machine :=
  { machine with exec := other, parked := [machine.exec] }

/-- A machine in which another execution runs and the running one is gone. -/
def dropFor (machine : Machine) (other : Execution) : Machine :=
  { machine with exec := other, parked := [] }

variable (machine : Machine) (other : Execution)

theorem unpark_parkBehind : (machine.parkBehind other).unpark machine.exec.id =
    some (machine.exec, machine.dropFor other) := by
  simp [unpark, parkBehind, dropFor]

theorem switchTo_dropFor (waits : machine.parked = [other]) :
    (machine.dropFor other).switchTo machine.exec = machine := by
  simp only [switchTo, Machine.park, dropFor, List.filter_nil]
  rw [← waits]

theorem switchBack_eq_dropFor (waits : machine.parked = [other]) :
    machine.switchBack other.id = (machine.exec, machine.dropFor other) := by
  simp [switchBack, unpark, dropFor, waits]

theorem park_dropFor : (machine.dropFor other).park machine.exec = machine.parkBehind other := by
  simp [Machine.park, dropFor, parkBehind]

end Machine

namespace Host

theorem attend_parkBehind (commands : Nat → Command) (outcome : SliceOutcome)
    (machine : Machine) (other : Execution) :
    attend commands outcome (machine.parkBehind other) =
      ((attend commands outcome machine).1,
        (attend commands outcome machine).2.parkBehind other) := by
  cases outcome <;> rfl

namespace Stays

variable {reentry : Reentry} {property : Machine → Prop} {other : Execution} {id : ExecId}
  {budget : Nat} (stays : Stays reentry property other id budget)
  {commands : Nat → Command} {machine after : Machine} {ended : Except Error Value}

include stays

theorem ends_runSteps_waits (holds : property machine) (count : Nat) :
    Ends (runSteps reentry count) (beginSlice machine)
      (fun _ after => after.parked = [other] ∧ after.exec.id = id)
      fun _ after => after.parked = [other] ∧ after.exec.id = id := by
  induction count generalizing machine with
  | zero => exact ends_pure.mpr (stays.waits (stays.begun holds))
  | succ count ih =>
      rw [runSteps, ends_bind]
      refine (Ends.and (stays.left holds) (ends_self (runStep reentry) (beginSlice machine))).mono
        ?_ fun _ _ left => left.1
      rintro outcome left ⟨waits, ran⟩
      cases outcome with
      | some outcome => exact ends_pure.mpr waits
      | none =>
          obtain ⟨kept, begun⟩ := stays.goesOn holds ran
          rw [← begun]
          exact ih kept

/-- A slice of an execution that waits is one of the execution that runs. -/
theorem runParkedSlice_parkBehind (holds : property machine) :
    runParkedSlice reentry id (machine.parkBehind other) =
      match sliceFor reentry budget machine with
      | .ok (.finished value) left => .ok (.finished value) (left.dropFor other)
      | .ok outcome left => .ok outcome (left.parkBehind other)
      | .error error left => .error error (left.dropFor other) := by
  obtain ⟨parked, current⟩ := stays.waits holds
  have uncompleted : (machine.parkBehind other).takeCompleted id = none := by
    have none := stays.uncompleted holds
    rw [takeCompleted, Option.map_eq_none_iff] at none ⊢
    exact none
  have found : (machine.parkBehind other).unpark id =
      some (machine.exec, machine.dropFor other) := by
    rw [← current]
    exact machine.unpark_parkBehind other
  have slices := stays.ends_runSteps_waits holds budget
  have due := stays.due holds
  rw [runParkedSlice, uncompleted, found]
  dsimp only
  rw [machine.switchTo_dropFor other parked, stays.budget_eq holds, stays.sliceFor_eq holds,
    if_neg (by rw [stays.lives holds]; exact Bool.false_ne_true),
    runSlice_of_due (stays.running holds) due]
  rw [show (machine.dropFor other).exec.id = other.id from rfl]
  cases ran : runSteps reentry budget (beginSlice machine) with
  | error error left =>
      dsimp only
      rw [left.switchBack_eq_dropFor other (ends_of_error ran slices).1]
  | ok outcome left =>
      have back := left.switchBack_eq_dropFor other (ends_of_ok ran slices).1
      cases outcome with
      | finished value =>
          dsimp only
          rw [back]
      | yielded | blocked | suspended | sleeping =>
          dsimp only
          rw [back]
          exact congrArg _ (left.park_dropFor other)

/-- An execution that waits between its slices is driven as one that runs. -/
theorem drives_of_running
    (drives : Drives (sliceFor reentry budget) commands machine ended after)
    (holds : property machine) :
    Drives (runParkedSlice reentry id) commands (machine.parkBehind other) ended
      (after.dropFor other) := by
  induction drives with
  | finishes ran =>
      refine .finishes ?_
      rw [stays.runParkedSlice_parkBehind holds, ran]
  | fails ran =>
      refine .fails ?_
      rw [stays.runParkedSlice_parkBehind holds, ran]
  | @goesOn commands machine left after outcome _ ran unfinished later ih =>
      have slices : runParkedSlice reentry id (machine.parkBehind other) =
          .ok outcome (left.parkBehind other) := by
        rw [stays.runParkedSlice_parkBehind holds, ran]
        cases outcome with
        | finished value => exact absurd rfl (unfinished value)
        | yielded | blocked | suspended | sleeping => rfl
      refine .goesOn slices unfinished ?_
      rw [attend_parkBehind]
      rw [stays.sliceFor_eq holds] at ran
      exact ih (ends_of_ok ran (stays.ends_runSteps holds budget) unfinished commands)

theorem running_of_drives {parked left : Machine}
    (drives : Drives (runParkedSlice reentry id) commands parked ended left)
    (same : parked = machine.parkBehind other) (holds : property machine) :
    ∃ after, Drives (sliceFor reentry budget) commands machine ended after ∧
      left = after.dropFor other := by
  induction drives generalizing machine with
  | finishes ran =>
      rw [same, stays.runParkedSlice_parkBehind holds] at ran
      split at ran
      next slices =>
          cases ran
          exact ⟨_, .finishes slices, rfl⟩
      next unfinished slices =>
          cases ran
          exact absurd rfl (unfinished _)
      next => cases ran
  | fails ran =>
      rw [same, stays.runParkedSlice_parkBehind holds] at ran
      split at ran
      next => cases ran
      next => cases ran
      next slices =>
          cases ran
          exact ⟨_, .fails slices, rfl⟩
  | @goesOn commands _ _ _ _ _ ran unfinished later ih =>
      rw [same, stays.runParkedSlice_parkBehind holds] at ran
      split at ran
      next =>
          cases ran
          exact absurd rfl (unfinished _)
      next slices =>
          cases ran
          have singly := slices
          rw [stays.sliceFor_eq holds] at singly
          have kept := ends_of_ok singly (stays.ends_runSteps holds budget) unfinished commands
          rw [attend_parkBehind] at ih
          obtain ⟨after, drives, left⟩ := ih rfl kept
          exact ⟨after, .goesOn slices unfinished drives, left⟩
      next => cases ran

/-- An execution that waits between its slices is driven as one that runs instruction by
instruction, if its slices run any. -/
theorem drives_parked_iff {left : Machine} (holds : property machine) :
    Drives (runParkedSlice reentry id) commands (machine.parkBehind other) ended left ↔
      0 < budget ∧ ∃ after, Drives (sliceFor reentry 1) commands machine ended after ∧
        left = after.dropFor other := by
  constructor
  · intro drives
    obtain ⟨after, running, same⟩ := stays.running_of_drives drives rfl holds
    exact ⟨stays.positive_of_drives running holds, after, stays.singly_of_drives running holds, same⟩
  · rintro ⟨positive, after, singly, rfl⟩
    exact stays.drives_of_running (stays.drives_of_singly positive singly holds) holds

end Stays

end Host

end Jvm
