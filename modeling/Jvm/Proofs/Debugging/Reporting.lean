import Jvm.Proofs.Debugging.Stepping
import Jvm.Proofs.Parking.Spawning

/-!
# The debugger while programs run

Programs do no more to the debugger than tell it of stops. What is outstanding stays so until
something is stopped, and no instruction gets a mark unless an execution has been stopped
before it. That goes for all that runs in a slice, threads and nested calls included.
-/

namespace Jvm

open Machine

/-! ## Slices of what waits -/

namespace Machine

/-- The machine in which an execution that waits has its slice: the one that ran waits. -/
def resumed? (machine : Machine) (id : ExecId) : Option Machine :=
  if (machine.takeCompleted id).isSome then none
  else (machine.unpark id).map fun (exec, left) => left.switchTo exec

/-- Whether a machine is one in which an execution of another one has its slice. -/
structure SwitchesTo (machine : Machine) (id : ExecId) (exec : Execution) (resumed : Machine) :
    Prop where
  waits : machine.parked.find? (·.id == id) = some exec
  same : resumed =
    { machine with exec, parked := machine.exec ::
        (machine.parked.filter (·.id ≠ id)).filter (·.id ≠ machine.exec.id) }

theorem SwitchesTo.id_eq {machine resumed : Machine} {id : ExecId} {exec : Execution}
    (resumes : machine.SwitchesTo id exec resumed) : exec.id = id :=
  beq_iff_eq.mp (List.find?_some resumes.waits :)

theorem exists_switchesTo {machine resumed : Machine} {id : ExecId}
    (found : machine.resumed? id = some resumed) : ∃ exec, machine.SwitchesTo id exec resumed := by
  rw [resumed?] at found
  split at found
  · cases found
  · obtain ⟨⟨exec, left⟩, taken, rfl⟩ := Option.map_eq_some_iff.mp found
    obtain ⟨exec, waits, same⟩ := Option.map_eq_some_iff.mp taken
    cases same
    exact ⟨exec, waits, rfl⟩

end Machine

namespace Host

variable {reentry : Reentry} {machine resumed : Machine} {id : ExecId}

/-- The execution that waited for a slice is back, and the one that had it waits unless it has
ended. -/
def putBack (current : ExecId) :
    EStateM.Result Error Machine SliceOutcome → EStateM.Result Error Machine SliceOutcome
  | .error error after => .error error (after.switchBack current).2
  | .ok (.finished value) after => .ok (.finished value) (after.switchBack current).2
  | .ok outcome after => .ok outcome ((after.switchBack current).2.park after.exec)

theorem runParkedSlice_of_resumed (found : machine.resumed? id = some resumed) :
    runParkedSlice reentry id machine =
      putBack machine.exec.id (sliceFor reentry resumed.config.sliceBudget resumed) := by
  rw [resumed?] at found
  split at found
  · cases found
  next fresh =>
      obtain ⟨⟨exec, left⟩, taken, rfl⟩ := Option.map_eq_some_iff.mp found
      have current : left.exec.id = machine.exec.id := by
        obtain ⟨-, -, rfl⟩ := Sound.mem_of_unpark taken
        rfl
      simp only [runParkedSlice, Option.not_isSome_iff_eq_none.mp fresh, taken, current]
      rw [sliceFor]
      generalize (if (left.switchTo exec).terminated = true then
        (.error .terminated (left.switchTo exec).abandonExecution :
          EStateM.Result Error Machine SliceOutcome)
        else runSlice reentry (left.switchTo exec).config.sliceBudget (left.switchTo exec)) = ended
      cases ended with
      | error error after => rfl
      | ok outcome after =>
          dsimp only
          rw [after.fst_switchBack]
          cases outcome <;> rfl

/-- The machines that the instructions of a slice of what waits start from. -/
def parkedVisits (reentry : Reentry) (id : ExecId) (machine : Machine) : List Machine :=
  match machine.resumed? id with
  | none => []
  | some resumed =>
    if resumed.terminated then [] else sliceVisits reentry resumed.config.sliceBudget resumed

end Host

/-! ## The debugger while programs run -/

namespace Machine

/-- Whether an execution of an id has a mark on an instruction to run without another stop. -/
def Marks (machine : Machine) (id : ExecId) (place : MethodId × UInt32) : Prop :=
  ∃ exec ∈ machine.executions, exec.id = id ∧ exec.skipBreakpoint = some place

/-- Whether a machine has no marks but those of another one. -/
def MarksWithin (after before : Machine) : Prop :=
  ∀ id place, after.Marks id place → before.Marks id place

theorem marksWithin_of_mem {after before : Machine}
    (known : ∀ exec ∈ after.executions, exec.skipBreakpoint = none ∨ exec ∈ before.executions) :
    after.MarksWithin before := by
  rintro id place ⟨exec, member, named, marked⟩
  rcases known exec member with unmarked | there
  · rw [unmarked] at marked
    cases marked
  · exact ⟨exec, there, named, marked⟩

theorem MarksWithin.trans {first second third : Machine} (right : third.MarksWithin second)
    (left : second.MarksWithin first) : third.MarksWithin first :=
  fun id place marks => left id place (right id place marks)

theorem Inside.marksWithin {before after : Machine} (inside : before.Inside after) :
    after.MarksWithin before := by
  rintro id place ⟨exec, member, named, marked⟩
  rcases List.mem_cons.mp member with rfl | waits
  · exact ⟨before.exec, .head _, inside.id.symm.trans named, inside.mark place marked⟩
  · exact ⟨exec, .tail _ (inside.parked ▸ waits), named, marked⟩

theorem marksWithin_spawn (machine : Machine) : machine.spawn.MarksWithin machine := by
  refine marksWithin_of_mem fun exec member => ?_
  rcases List.mem_cons.mp member with rfl | waits
  · exact .inl rfl
  · rcases List.mem_cons.mp waits with rfl | waits
    · exact .inr (.head _)
    · exact .inr (.tail _ (List.mem_of_mem_filter waits))

theorem marksWithin_switchBack (machine : Machine) (id : ExecId) :
    (machine.switchBack id).2.MarksWithin machine := by
  refine marksWithin_of_mem fun exec member => ?_
  rw [switchBack] at member
  split at member
  next waiting left taken =>
      obtain ⟨there, -, rfl⟩ := Sound.mem_of_unpark taken
      rcases List.mem_cons.mp member with rfl | waits
      · exact .inr (.tail _ there)
      · exact .inr (.tail _ (List.mem_of_mem_filter waits))
  next =>
      rcases List.mem_cons.mp member with rfl | waits
      · exact .inl rfl
      · exact .inr (.tail _ waits)

/-- An execution that has run waits again. -/
theorem marksWithin_park (machine : Machine) (id : ExecId) :
    ((machine.switchBack id).2.park machine.exec).MarksWithin machine := by
  rintro other place ⟨exec, member, named, marked⟩
  have back := machine.marksWithin_switchBack id other place
  rcases List.mem_cons.mp member with rfl | waits
  · exact back ⟨_, .head _, named, marked⟩
  · rcases List.mem_cons.mp waits with rfl | waits
    · exact ⟨_, .head _, named, marked⟩
    · exact back ⟨exec, .tail _ (List.mem_of_mem_filter waits), named, marked⟩

theorem SwitchesTo.marksWithin {machine resumed : Machine} {id : ExecId} {exec : Execution}
    (resumes : machine.SwitchesTo id exec resumed) : resumed.MarksWithin machine := by
  refine marksWithin_of_mem fun other member => .inr ?_
  rw [resumes.same] at member
  rcases List.mem_cons.mp member with rfl | waits
  · exact .tail _ (List.mem_of_find?_eq_some resumes.waits)
  · rcases List.mem_cons.mp waits with rfl | waits
    · exact .head _
    · exact .tail _ (List.mem_of_mem_filter (List.mem_of_mem_filter waits))

/-- How a machine changes while its debugger gets no command. -/
structure Reports (before after : Machine) : Prop where
  id : after.exec.id = before.exec.id
  attached : after.debuggerAttached = before.debuggerAttached
  debugger : before.debugger.Keeps after.debugger
  marks : after.debugger.isStopped = true ∨ after.MarksWithin before

namespace Reports

variable {first second third machine : Machine}

theorem refl (machine : Machine) : machine.Reports machine :=
  ⟨rfl, rfl, .refl _, .inr fun _ _ marks => marks⟩

theorem trans (left : first.Reports second) (right : second.Reports third) :
    first.Reports third where
  id := right.id.trans left.id
  attached := right.attached.trans left.attached
  debugger := left.debugger.trans right.debugger
  marks := by
    rcases left.marks with stopped | early
    · exact .inl (right.debugger.stopped stopped ▸ stopped)
    · exact right.marks.imp_right fun late => late.trans early

theorem of_inside (inside : first.Inside second) : first.Reports second :=
  ⟨inside.id, inside.attached, inside.debugger ▸ .refl _, .inr inside.marksWithin⟩

/-- What another execution is told is told the one that ran before, which comes back. -/
theorem switchBack {id : ExecId} (reports : first.Reports second)
    (attached : first.debuggerAttached = machine.debuggerAttached)
    (debugger : first.debugger = machine.debugger) (within : first.MarksWithin machine)
    (current : machine.exec.id = id) :
    machine.Reports (second.switchBack id).2 ∧
      machine.Reports ((second.switchBack id).2.park second.exec) := by
  have back := second.marksWithin_switchBack id
  have parks := second.marksWithin_park id
  obtain ⟨exec, named, same, -⟩ := second.switchBack_eq id
  rw [same] at back parks ⊢
  have marks : ∀ {after : Machine}, after.MarksWithin second →
      second.debugger.isStopped = true ∨ after.MarksWithin machine := fun late =>
    reports.marks.imp_right fun early => (late.trans early).trans within
  exact ⟨⟨named.trans current.symm, reports.attached.trans attached, debugger ▸ reports.debugger,
    marks back⟩, named.trans current.symm, reports.attached.trans attached,
    debugger ▸ reports.debugger, marks parks⟩

end Reports

/-- The debugger is told of stops, and is otherwise left alone. -/
def reporting : Course where
  meant _ := True
  moves := Reports
  trans := Reports.trans
  kept _ := trivial
  inside _ inside := .of_inside inside
  notes _ keeps := ⟨rfl, rfl, keeps, .inr fun _ _ marks => marks⟩
  marks _ stopped _ := ⟨rfl, rfl, .refl _, .inl stopped⟩

end Machine

namespace Reentry

/-- Whether the calls that natives may make do no more to the debugger than tell it. -/
structure Reporting (reentry : Reentry) : Prop where
  enter : ∀ id arguments, reporting.Follows (reentry.enter id arguments)
  complete : reporting.Follows reentry.complete

namespace Reporting

variable {reentry : Reentry} (tells : reentry.Reporting)

include tells

theorem call (id : MethodId) (arguments : List Value) :
    reporting.Follows (reentry.call id arguments) := by
  refine (tells.enter id arguments).bind fun entered => ?_
  split
  · exact .pure _
  · exact tells.complete

theorem prepare (id : MethodId) (arguments : List Value) :
    reporting.Follows (reentry.prepare id arguments) := by
  intro machine _
  have prepares := reentry.prepare_eq id arguments machine
  have enters := tells.enter id arguments machine.spawn trivial
  cases ran : reentry.enter id arguments machine.spawn with
  | error error after =>
      rw [ran] at prepares
      have reports := ends_of_error ran enters
      have back : machine.Reports _ ∧ _ :=
        reports.switchBack rfl rfl machine.marksWithin_spawn rfl
      exact Moves.of_error prepares back.1
  | ok entered after =>
      rw [ran] at prepares
      have reports := (ends_of_ok ran enters).1
      obtain ⟨back, parks⟩ : machine.Reports _ ∧ _ :=
        reports.switchBack rfl rfl machine.marksWithin_spawn rfl
      cases entered with
      | some value =>
          exact Moves.of_ok prepares ⟨back.id, back.attached, back.debugger, back.marks⟩ trivial
      | none =>
          dsimp only at prepares
          rw [fst_switchBack] at prepares
          exact Moves.of_ok prepares parks trivial

theorem begin (thread : Ref) : reporting.Follows (ThreadNative.begin reentry thread) := by
  have launches : reporting.Follows (ThreadNative.launch reentry thread) := by
    rw [ThreadNative.launch]
    refine .bind (.of_blind fun _ => Guest.blind_classOf thread) fun cls =>
      .get_bind fun machine => ?_
    dsimp only
    split
    · exact .of_blind fun _ => Guest.blind_raise _ _
    · refine (tells.prepare _ _).ofHost.bind fun id => .bind ?_ fun _ => .bind ?_ fun _ => .pure _
      · exact .modify fun machine => machine.inside_modifyHeap _
      · refine fun machine _ => Moves.modify ⟨rfl, rfl, .refl _, .inr ?_⟩ trivial
        rintro other place ⟨exec, member, named, marked⟩
        rcases List.mem_cons.mp member with rfl | waits
        · exact ⟨_, .head _, named, marked⟩
        · obtain ⟨waiting, there, rfl⟩ := List.mem_map.mp waits
          refine ⟨waiting, .tail _ there, ?_⟩
          split at named
          · next same => exact ⟨named, by rwa [if_pos same] at marked⟩
          · next other => exact ⟨named, by rwa [if_neg other] at marked⟩
  refine .get_bind fun machine => ?_
  split
  · exact .bind (.of_blind fun _ => Guest.blind_raise _ _) fun _ => launches
  · exact launches

theorem admits : reporting.Admits reentry := Course.admits_of_calls tells.call tells.begin

theorem sliceFor (budget : Nat) : reporting.Follows (Host.sliceFor reentry budget) := by
  intro machine meant
  by_cases terminated : machine.terminated = true
  · exact Moves.of_error (if_pos terminated) (.of_inside machine.inside_abandonExecution)
  · have same : Host.sliceFor reentry budget machine = Host.runSlice reentry budget machine :=
      if_neg terminated
    rw [Moves, ends_congr same]
    exact Course.follows_runSlice tells.admits budget machine meant

/-- A slice of another execution. -/
theorem runParkedSlice (id : ExecId) : reporting.Follows (Host.runParkedSlice reentry id) := by
  intro machine _
  cases found : machine.resumed? id with
  | none =>
      simp only [Moves, Ends, Host.runParkedSlice]
      rw [resumed?] at found
      cases taken : machine.takeCompleted id with
      | some finished =>
          obtain ⟨_, -, rfl⟩ := Option.map_eq_some_iff.mp taken
          exact ⟨⟨rfl, rfl, .refl _, .inr fun _ _ marks => marks⟩, trivial⟩
      | none =>
          rw [taken, Option.isSome_none, if_neg Bool.false_ne_true, Option.map_eq_none_iff] at found
          rw [found]
          exact .refl machine
  | some resumed =>
      obtain ⟨exec, resumes⟩ := exists_switchesTo found
      have slice := tells.sliceFor resumed.config.sliceBudget resumed trivial
      have back : ∀ {after : Machine}, resumed.Reports after →
          machine.Reports (after.switchBack machine.exec.id).2 ∧
            machine.Reports ((after.switchBack machine.exec.id).2.park after.exec) := fun reports =>
        reports.switchBack (by rw [resumes.same]) (by rw [resumes.same]) resumes.marksWithin rfl
      simp only [Moves, Ends, Host.runParkedSlice_of_resumed found]
      cases ran : Host.sliceFor reentry resumed.config.sliceBudget resumed with
      | error error after =>
          have reports := ends_of_error ran slice
          exact (back reports).1
      | ok outcome after =>
          have reports := (ends_of_ok ran slice).1
          cases outcome with
          | finished value => exact ⟨(back reports).1, trivial⟩
          | yielded | blocked | suspended | sleeping => exact ⟨(back reports).2, trivial⟩

theorem runGuestSlices : reporting.Follows (Host.runGuestSlices reentry) := by
  have slices : ∀ round id, reporting.Follows (Host.runGuestSlice reentry round id) := by
    refine fun round id => (tells.runParkedSlice id).catching.bind fun ended => ?_
    split
    · refine .bind (fun machine _ => ?_) fun _ => .pure _
      exact Moves.modify ⟨rfl, rfl, .refl _, .inr fun _ _ marks => marks⟩ trivial
    · exact .pure _
    · exact .throw _
    · exact .pure _
    next error =>
        refine .bind (fun machine _ => ?_) fun _ => .pure _
        have told := Reports.of_inside (machine.inside_reportDeath id error)
        exact Moves.modify ⟨told.id, told.attached, told.debugger, told.marks⟩ trivial
  have rounds : ∀ (ids : List ExecId) (round : GuestRound),
      reporting.Follows (ids.foldlM (Host.runGuestSlice reentry) round) := by
    intro ids
    induction ids with
    | nil => exact fun _ => .pure _
    | cons id rest ih => exact fun round => (slices round id).bind ih
  exact .get_bind fun machine => rounds _ _

end Reporting

theorem reporting_ofDepth (fuel depth : Nat) : (ofDepth fuel depth).Reporting := by
  induction depth with
  | zero => exact ⟨fun _ _ => .throw _, .throw _⟩
  | succ depth ih =>
      have completes : reporting.Follows (Host.runToCompletion (ofDepth fuel depth) fuel) :=
        Course.follows_runToCompletion ih.admits ih.runGuestSlices fuel
      exact ⟨Course.follows_enterMethod ih.admits completes, completes⟩

end Reentry

end Jvm
