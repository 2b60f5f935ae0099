import Jvm.Proofs.Debugging.Simulating

/-!
# Driving a debugged execution beside the plain one

A debugged execution that is driven instruction by instruction ends as the plain one does,
whatever the host asks for when it is stopped: for each instruction of the plain one it is
stopped a few times, and then it does the same.
-/

namespace Jvm

open Machine

namespace Host

/-! ## What a run visits -/

/-- Whether an instruction that starts from one machine leaves another one to the next
instruction, once the host has attended to the end of the slice. -/
inductive Passes (reentry : Reentry) (machine : Machine) : Machine → Prop
  | goesOn {after : Machine} (ran : runStep reentry machine = .ok none after) :
      Passes reentry machine after
  | pauses {after : Machine} {outcome : SliceOutcome}
      (ran : runStep reentry machine = .ok (some outcome) after)
      (unfinished : ∀ value, outcome ≠ .finished value) (commands : Nat → Command) :
      Passes reentry machine (beginSlice (attend commands outcome after).2)

/-- Whether every instruction of a run is one that breakpoints do not change. -/
def Peaceful (reentry : Reentry) (breakpoints : Breakpoints) (start : Machine) : Prop :=
  ∀ visited, Relation.ReflTransGen (Passes reentry) start visited →
    Tame reentry breakpoints visited

section

variable {reentry : Reentry} {breakpoints : Breakpoints} {machine after : Machine}

theorem Peaceful.here (peaceful : Peaceful reentry breakpoints machine) :
    Tame reentry breakpoints machine :=
  peaceful _ .refl

theorem Peaceful.next (peaceful : Peaceful reentry breakpoints machine)
    (passes : Passes reentry machine after) : Peaceful reentry breakpoints after :=
  fun visited reaches => peaceful visited (.head passes reaches)

/-- Where nothing is recorded no byte is under a breakpoint. -/
theorem Peaceful.plain (peaceful : Peaceful reentry breakpoints machine) :
    Peaceful reentry [] machine := by
  intro visited reaches
  have tame := peaceful visited reaches
  exact ⟨tame.alive, tame.survives, tame.timeless,
    fun _ _ _ current there spares => tame.unread current there fun place _ => spares place rfl⟩

end

/-- What a run that finishes in one slice visits is what its slice visits. -/
theorem mem_visits_of_finishes {reentry : Reentry} {budget : Nat} {machine after visited : Machine}
    {value : Value} (finishes : runSteps reentry budget machine = .ok (.finished value) after)
    (reaches : Relation.ReflTransGen (Passes reentry) machine visited) :
    visited ∈ visits reentry budget machine := by
  induction budget generalizing machine with
  | zero => cases finishes
  | succ budget ih =>
      rw [visits]
      obtain rfl | ⟨next, passes, reaches⟩ := reaches.cases_head
      · exact List.mem_cons_self
      · cases ran : runStep reentry machine with
        | error error last => cases (runSteps_of_fails ran).symm.trans finishes
        | ok outcome last =>
            cases outcome with
            | none =>
                rw [runSteps_of_goesOn ran] at finishes
                refine List.mem_cons_of_mem _ ?_
                cases passes with
                | goesOn other =>
                    cases ran.symm.trans other
                    exact ih finishes reaches
                | pauses other => cases ran.symm.trans other
            | some outcome =>
                cases (runSteps_of_ends ran).symm.trans finishes
                cases passes with
                | goesOn other => cases ran.symm.trans other
                | pauses other unfinished =>
                    cases ran.symm.trans other
                    exact absurd rfl (unfinished _)

/-! ## Side by side -/

/-- What an execution is run with: the settings, its id, and what waits. -/
abbrev Setting : Type := Config × ExecId × List Execution × List (ExecId × Value)

/-- Whether a debugged machine and a plain one are at the same place of a run that
breakpoints do not change. -/
structure Beside (reentry : Reentry) (breakpoints : Breakpoints) (setting : Setting)
    (debugged plain : Machine) : Prop where
  linked : Linked reentry breakpoints debugged plain
  own : Shadows [] plain.ready plain.ready
  due : Due debugged
  duePlain : Due plain
  settled : debugged.setting = setting
  settledPlain : plain.setting = setting
  peaceful : Peaceful reentry breakpoints (beginSlice plain)

namespace Beside

variable {reentry : Reentry} {breakpoints : Breakpoints} {setting : Setting}
  {debugged plain after left : Machine}

/-- Machines that agree when their executions are due are side by side again. -/
theorem of_agrees (agrees : Agrees breakpoints after left) (due : Due after) (duePlain : Due left)
    (settled : after.setting = setting) (peaceful : Peaceful reentry breakpoints (beginSlice left)) :
    Beside reentry breakpoints setting after left :=
  ⟨.level agrees.ready, agrees.ready.own, due, duePlain, settled,
    (Shadows.setting_eq agrees).symm.trans settled, peaceful⟩

theorem due_of_unasked {machine : Machine} (unasked : machine.Unasked)
    (running : machine.exec.isIdle = false) : Due machine :=
  ⟨running, by rw [unasked.2]; rfl⟩

variable (beside : Beside reentry breakpoints setting debugged plain)

include beside

/-- A plain machine is beside itself. -/
theorem plainly : Beside reentry [] setting plain plain :=
  ⟨.level beside.own, beside.own, beside.duePlain, beside.duePlain, beside.settledPlain,
    beside.settledPlain, beside.peaceful.plain⟩

theorem alive : debugged.terminated = false := by
  cases beside.linked with
  | level shadows => exact shadows.terminated_eq.trans beside.peaceful.here.alive
  | withholds kept agrees alive throws => exact (Shadows.terminated_eq agrees).trans alive

/-- A slice that has begun has begun. -/
theorem begun : Beside reentry breakpoints setting (beginSlice debugged) plain := by
  refine ⟨?_, beside.own, ⟨beside.due.running, rfl⟩, beside.duePlain, beside.settled,
    beside.settledPlain, beside.peaceful⟩
  cases beside.linked with
  | level shadows => exact .level shadows
  | withholds kept agrees alive throws => exact .withholds kept agrees alive throws

theorem of_goesOn (ran : runStep reentry (beginSlice plain) = .ok none left)
    (agrees : Agrees breakpoints after left) (settled : after.setting = debugged.setting)
    (unasked : after.Unasked) (running : after.exec.isIdle = false) :
    Beside reentry breakpoints setting after left := by
  have calm := agrees.unasked unasked
  refine of_agrees agrees (due_of_unasked unasked running)
    (due_of_unasked calm (agrees.isIdle_eq.symm.trans running)) (settled.trans beside.settled) ?_
  rw [beginSlice_of_unasked calm]
  exact beside.peaceful.next (.goesOn ran)

theorem of_pauses {machine : Machine} {other : SliceOutcome}
    (ran : runStep reentry (beginSlice plain) = .ok (some other) machine)
    (unfinished : ∀ value, other ≠ .finished value)
    (attends : ∀ commands, attend commands other machine = (commands, left))
    (agrees : Agrees breakpoints after left) (settled : after.setting = debugged.setting)
    (due : Due after) (duePlain : Due left) : Beside reentry breakpoints setting after left := by
  refine of_agrees agrees due duePlain (settled.trans beside.settled) ?_
  have passes := Passes.pauses ran unfinished fun _ => .resume
  rw [attends] at passes
  exact beside.peaceful.next passes

theorem of_stops (stops : Stops reentry breakpoints debugged after plain) (debugger : Debugger) :
    Beside reentry breakpoints setting { after with debugger } plain :=
  ⟨stops.linked debugger, beside.own, ⟨stops.due.running, stops.due.awake⟩, beside.duePlain,
    stops.setting.trans beside.settled, beside.settledPlain, beside.peaceful⟩

variable (refuses : reentry.Refuses)

include refuses

theorem pairs : Pairs reentry breakpoints debugged plain
    (runStep reentry (beginSlice debugged)) :=
  beside.linked.pairs refuses beside.due beside.peaceful.here

/-- What the host attends to leaves the machines side by side. -/
theorem attended {outcome : SliceOutcome}
    (ran : runStep reentry (beginSlice debugged) = .ok (some outcome) after)
    (unfinished : ∀ value, outcome ≠ .finished value) (commands : Nat → Command) :
    ∃ rest, Beside reentry breakpoints setting (attend commands outcome after).2 rest := by
  have pairs := beside.pairs refuses
  rw [ran] at pairs
  obtain ⟨_, same, stops⟩ | mirrors := pairs
  · cases same
    exact ⟨plain, beside.of_stops stops _⟩
  · cases mirrors with
    | returns => exact absurd rfl (unfinished _)
    | pauses ranPlain both attends attendsPlain agrees setting same due duePlain =>
        rw [attends]
        exact ⟨_, beside.of_pauses ranPlain (fun value => (both value).2) attendsPlain agrees
          (same.trans setting) due duePlain⟩

/-- An instruction leaves the setting as it is. -/
theorem ends_runStep_setting : Ends (runStep reentry) (beginSlice debugged)
    (fun _ after => after.setting = setting) fun _ after => after.setting = setting := by
  have pairs := beside.pairs refuses
  cases ran : runStep reentry (beginSlice debugged) with
  | ok outcome after =>
      rw [ran] at pairs
      refine Ends.of_ok ran ?_
      obtain ⟨_, same, stops⟩ | mirrors := pairs
      · cases same
        exact stops.setting.trans beside.settled
      · cases mirrors with
        | goesOn _ _ settled => exact settled.trans beside.settled
        | pauses _ _ _ _ _ settled => exact settled.trans beside.settled
        | returns _ _ settled => exact settled.trans beside.settled
  | error error after =>
      rw [ran] at pairs
      refine Ends.of_error ran ?_
      obtain ⟨_, same, _⟩ | mirrors := pairs
      · cases same
      · cases mirrors with
        | fails _ _ settled => exact settled.trans beside.settled

end Beside

section

variable {reentry : Reentry} {breakpoints : Breakpoints} {setting : Setting}
  (refuses : reentry.Refuses)

include refuses

/-- A debugged machine stays beside a plain one while it is driven. -/
theorem lasts_beside : Lasts reentry fun machine =>
    ∃ plain, Beside reentry breakpoints setting machine plain where
  lives := fun ⟨_, beside⟩ => beside.alive
  running := fun ⟨_, beside⟩ => beside.due.running
  due := fun ⟨_, beside⟩ => beside.due.awake
  begun := fun ⟨plain, beside⟩ => ⟨plain, beside.begun⟩
  goesOn := by
    rintro machine after ⟨plain, beside⟩ ran
    have pairs := beside.pairs refuses
    rw [ran] at pairs
    obtain ⟨_, same, _⟩ | mirrors := pairs
    · cases same
    · cases mirrors with
      | goesOn ranPlain agrees settled unasked running =>
          exact ⟨⟨_, beside.of_goesOn ranPlain agrees settled unasked running⟩,
            beginSlice_of_unasked unasked⟩
  attended := fun ⟨_, beside⟩ ran unfinished commands =>
    beside.attended refuses ran unfinished commands

/-- So it does while another execution waits for it. -/
theorem stays_beside {other : Execution} {config : Config} {id : ExecId}
    {completed : List (ExecId × Value)} (uncompleted : ∀ entry ∈ completed, entry.1 ≠ id)
    (same : setting = (config, id, [other], completed)) :
    Stays reentry (fun machine => ∃ plain, Beside reentry breakpoints setting machine plain) other
      id config.sliceBudget where
  toLasts := lasts_beside refuses
  budget_eq := by
    rintro machine ⟨plain, beside⟩
    exact congrArg (fun setting : Setting => setting.1.sliceBudget) (beside.settled.trans same)
  uncompleted := by
    rintro machine ⟨plain, beside⟩
    have results : machine.completed = completed :=
      congrArg (fun setting : Setting => setting.2.2.2) (beside.settled.trans same)
    rw [takeCompleted, results, Option.map_eq_none_iff, List.find?_eq_none]
    exact fun entry member taken => uncompleted entry member (beq_iff_eq.mp taken)
  waits := by
    rintro machine ⟨plain, beside⟩
    exact ⟨congrArg (fun setting : Setting => setting.2.2.1) (beside.settled.trans same),
      congrArg (fun setting : Setting => setting.2.1) (beside.settled.trans same)⟩
  left := by
    rintro machine ⟨plain, beside⟩
    refine (beside.ends_runStep_setting refuses).mono ?_ ?_ <;>
    · intro _ after settled
      exact ⟨congrArg (fun setting : Setting => setting.2.2.1) (settled.trans same),
        congrArg (fun setting : Setting => setting.2.1) (settled.trans same)⟩

/-! ## Slices of one instruction -/

omit refuses

/-- A slice of one instruction is that instruction. -/
def sliceOf : EStateM.Result Error Machine (Option SliceOutcome) →
    EStateM.Result Error Machine SliceOutcome
  | .ok none after => .ok .yielded after
  | .ok (some outcome) after => .ok outcome after
  | .error error after => .error error after

theorem Lasts.sliceFor_one_eq {property : Machine → Prop} (lasts : Lasts reentry property)
    {machine : Machine} (holds : property machine) :
    sliceFor reentry 1 machine = sliceOf (runStep reentry (beginSlice machine)) := by
  rw [lasts.sliceFor_one holds]
  cases runStep reentry (beginSlice machine) with
  | ok outcome after => cases outcome <;> rfl
  | error error after => rfl

/-- How a slice of one instruction ends beside the plain machine. -/
inductive Turns (reentry : Reentry) (breakpoints : Breakpoints) (setting : Setting)
    (debugged plain : Machine) : Prop
  | stops {after : Machine} (ran : sliceFor reentry 1 debugged = .ok .suspended after)
      (beside : ∀ debugger, Beside reentry breakpoints setting { after with debugger } plain)
      (fewer : after.stopsLeft < debugged.stopsLeft) : Turns reentry breakpoints setting debugged plain
  | continues {after left later rest : Machine} {outcome other : SliceOutcome}
      (ran : sliceFor reentry 1 debugged = .ok outcome after)
      (ranPlain : sliceFor reentry 1 plain = .ok other left)
      (unfinished : ∀ value, outcome ≠ .finished value ∧ other ≠ .finished value)
      (attends : ∀ commands, attend commands outcome after = (commands, later))
      (attendsPlain : ∀ commands, attend commands other left = (commands, rest))
      (beside : Beside reentry breakpoints setting later rest) :
      Turns reentry breakpoints setting debugged plain
  | returns {after left : Machine} {value : Value}
      (ran : sliceFor reentry 1 debugged = .ok (.finished value) after)
      (ranPlain : sliceFor reentry 1 plain = .ok (.finished value) left)
      (agrees : Agrees breakpoints after left) : Turns reentry breakpoints setting debugged plain
  | fails {after left : Machine} {error : Error}
      (ran : sliceFor reentry 1 debugged = .error error after)
      (ranPlain : sliceFor reentry 1 plain = .error error left)
      (agrees : Agrees breakpoints after left) : Turns reentry breakpoints setting debugged plain

include refuses

variable {debugged plain : Machine}

/-- A slice of one instruction ends beside the plain machine. -/
theorem Beside.turns (beside : Beside reentry breakpoints setting debugged plain) :
    Turns reentry breakpoints setting debugged plain := by
  have slice := (lasts_beside refuses).sliceFor_one_eq ⟨plain, beside⟩
  have slicePlain := (lasts_beside refuses).sliceFor_one_eq ⟨plain, beside.plainly⟩
  have pairs := beside.pairs refuses
  generalize runStep reentry (beginSlice debugged) = result at slice pairs
  obtain ⟨after, rfl, stops⟩ | mirrors := pairs
  · exact .stops slice (beside.of_stops stops) stops.fewer
  · cases mirrors with
    | goesOn ran agrees settled unasked running =>
        rw [ran] at slicePlain
        exact .continues slice slicePlain (fun _ => ⟨nofun, nofun⟩) (fun _ => rfl) (fun _ => rfl)
          (beside.of_goesOn ran agrees settled unasked running)
    | pauses ran unfinished attends attendsPlain agrees settled same due duePlain =>
        rw [ran] at slicePlain
        exact .continues slice slicePlain unfinished attends attendsPlain
          (beside.of_pauses ran (fun value => (unfinished value).2) attendsPlain agrees
            (same.trans settled) due duePlain)
    | returns ran agrees settled =>
        rw [ran] at slicePlain
        exact .returns slice slicePlain agrees
    | fails ran agrees settled =>
        rw [ran] at slicePlain
        exact .fails slice slicePlain agrees

variable {commands : Nat → Command} {ended : Except Error Value}

/-- A debugged execution that is driven to its end ends as the plain one does, and the plain
one needs no commands. -/
theorem plain_of_drives {after : Machine}
    (drives : Drives (sliceFor reentry 1) commands debugged ended after)
    (beside : Beside reentry breakpoints setting debugged plain) :
    ∃ left, (∀ commands, Drives (sliceFor reentry 1) commands plain ended left) ∧
      Agrees breakpoints after left := by
  induction drives generalizing plain with
  | finishes ran =>
      cases beside.turns refuses with
      | stops other => cases ran.symm.trans other
      | continues other _ unfinished =>
          cases ran.symm.trans other
          exact absurd rfl (unfinished _).1
      | returns other ranPlain agrees =>
          cases ran.symm.trans other
          exact ⟨_, fun _ => .finishes ranPlain, agrees⟩
      | fails other => cases ran.symm.trans other
  | fails ran =>
      cases beside.turns refuses with
      | stops other | continues other | returns other => cases ran.symm.trans other
      | fails other ranPlain agrees =>
          cases ran.symm.trans other
          exact ⟨_, fun _ => .fails ranPlain, agrees⟩
  | @goesOn commands _ _ _ _ _ ran unfinished later ih =>
      cases beside.turns refuses with
      | stops other beside =>
          cases ran.symm.trans other
          exact ih (beside _)
      | continues other ranPlain both attends attendsPlain beside =>
          cases ran.symm.trans other
          rw [attends] at ih
          obtain ⟨left, drives, agrees⟩ := ih beside
          refine ⟨left, fun commands => .goesOn ranPlain (fun value => (both value).2) ?_, agrees⟩
          rw [attendsPlain]
          exact drives commands
      | returns other =>
          cases ran.symm.trans other
          exact absurd rfl (unfinished _)
      | fails other => cases ran.symm.trans other

/-- Once the host has let it go on often enough, a debugged execution runs its instruction. -/
theorem exists_unstopped (beside : Beside reentry breakpoints setting debugged plain)
    (commands : Nat → Command) : ∃ later rest,
      Beside reentry breakpoints setting later plain ∧
      (∀ after, sliceFor reentry 1 later ≠ .ok .suspended after) ∧
      ∀ ended after, Drives (sliceFor reentry 1) rest later ended after →
        Drives (sliceFor reentry 1) commands debugged ended after := by
  -- each stop leaves fewer stops before the instruction runs
  induction left : debugged.stopsLeft using Nat.strongRecOn generalizing debugged commands with
  | ind count again =>
      cases beside.turns refuses with
      | @stops after ran stopped fewer =>
          let next := (attend commands .suspended after).2
          have obeys : Beside reentry breakpoints setting next plain := stopped _
          obtain ⟨later, rest, beside, runs, drives⟩ :=
            again next.stopsLeft (left ▸ fewer) obeys (attend commands .suspended after).1 rfl
          exact ⟨later, rest, beside, runs, fun ended last further =>
            .goesOn ran nofun (drives ended last further)⟩
      | continues ran _ _ attends =>
          refine ⟨debugged, commands, beside, fun after stopped => ?_, fun _ _ drives => drives⟩
          cases ran.symm.trans stopped
          -- a stop would take a command
          have kept := congrArg (fun left : (Nat → Command) × Machine => left.1 0)
            (attends fun index => if index = 0 then .resume else .step .into)
          cases kept
      | returns ran | fails ran =>
          refine ⟨debugged, commands, beside, fun after stopped => ?_, fun _ _ drives => drives⟩
          cases ran.symm.trans stopped

/-- Where the plain execution ends, so does the debugged one, whatever the host asks for. -/
theorem drives_of_plain {left : Machine}
    (drives : Drives (sliceFor reentry 1) commands plain ended left)
    (beside : Beside reentry breakpoints setting debugged plain) (asked : Nat → Command) :
    ∃ after, Drives (sliceFor reentry 1) asked debugged ended after ∧
      Agrees breakpoints after left := by
  induction drives generalizing debugged asked with
  | finishes ranPlain =>
      obtain ⟨later, rest, beside, runs, reaches⟩ := exists_unstopped refuses beside asked
      cases beside.turns refuses with
      | stops ran => exact absurd ran (runs _)
      | continues _ other unfinished =>
          cases ranPlain.symm.trans other
          exact absurd rfl (unfinished _).2
      | returns ran other agrees =>
          cases ranPlain.symm.trans other
          exact ⟨_, reaches _ _ (.finishes ran), agrees⟩
      | fails _ other => cases ranPlain.symm.trans other
  | fails ranPlain =>
      obtain ⟨later, rest, beside, runs, reaches⟩ := exists_unstopped refuses beside asked
      cases beside.turns refuses with
      | stops ran => exact absurd ran (runs _)
      | continues _ other | returns _ other => cases ranPlain.symm.trans other
      | fails ran other agrees =>
          cases ranPlain.symm.trans other
          exact ⟨_, reaches _ _ (.fails ran), agrees⟩
  | goesOn ranPlain unfinished further ih =>
      obtain ⟨later, rest, beside, runs, reaches⟩ := exists_unstopped refuses beside asked
      cases beside.turns refuses with
      | stops ran => exact absurd ran (runs _)
      | continues ran other both attends attendsPlain beside =>
          cases ranPlain.symm.trans other
          rw [attendsPlain] at ih
          obtain ⟨after, drives, agrees⟩ := ih beside rest
          refine ⟨after, reaches _ _ (.goesOn ran (fun value => (both value).1) ?_), agrees⟩
          rw [attends]
          exact drives
      | returns _ other =>
          cases ranPlain.symm.trans other
          exact absurd rfl (unfinished _)
      | fails _ other => cases ranPlain.symm.trans other

end

end Host

end Jvm
