import Jvm.Proofs.Debugging.Asking
import Jvm.Proofs.Debugging.Transparency
import Jvm.Proofs.Machine.Runs

/-!
# Where steps end

An execution that is stopped waits before an instruction that has not begun, and that is the one
that runs when the execution goes on. From there on each instruction finds the step that the host
has taken, until something is stopped: the first one that the step is over at does not begin, and
the execution waits there. Instructions ask exactly while something is outstanding, whatever the
host does.

A debugger holds one stop at a time. While it does, other executions may run and ask in vain, so
an execution may pass the end of its step while another one is stopped.
-/

open Relation (ReflTransGen)

namespace Jvm

open Machine

/-! ## Slices -/

section

variable {reentry : Reentry} {machine here : Machine} {budget : Nat} {earlier later : List Machine}

/-- A machine that is visited is where the rest of the slice starts. -/
theorem Host.runSteps_of_visits
    (visited : Host.visits reentry budget machine = earlier ++ here :: later) :
    ∃ left, Host.runSteps reentry budget machine = Host.runSteps reentry (left + 1) here ∧
      Host.visits reentry (left + 1) here = here :: later := by
  induction earlier generalizing budget machine with
  | nil =>
      cases budget with
      | zero => cases visited
      | succ budget =>
          have same : machine = here := (List.cons.inj visited).1
          subst same
          exact ⟨budget, rfl, visited⟩
  | cons first earlier ih =>
      cases budget with
      | zero => cases visited
      | succ budget =>
          have rest := (List.cons.inj visited).2
          split at rest
          next next ran =>
              rw [Host.runSteps_of_goesOn ran]
              exact ih rest
          next => exact absurd rest.symm (List.append_ne_nil_of_right_ne_nil _ nofun)

/-- What is visited is reached along a course. -/
theorem Course.moves_of_visits {course : Course} (admits : course.Admits reentry)
    (meant : course.meant machine) (visited : here ∈ Host.visits reentry budget machine) :
    course.moves machine here := by
  induction budget generalizing machine with
  | zero => cases visited
  | succ budget ih =>
      rcases List.mem_cons.mp visited with rfl | rest
      · exact Course.refl meant
      · split at rest
        next next ran =>
            have moved := (ends_of_ok ran (Course.follows_runStep admits machine meant)).1
            exact course.trans moved (ih (course.kept moved) rest)
        next => cases rest

namespace Reentry.Reporting

variable (tells : reentry.Reporting)

include tells

/-- Whatever mark there was is gone after the first instruction. -/
theorem unmarked_of_visits (poised : machine.Poised)
    (visited : Host.visits reentry budget machine = earlier ++ here :: later)
    (first : earlier ≠ []) : here.Unmarked := by
  obtain ⟨before, earlier, rfl⟩ := List.exists_cons_of_ne_nil first
  cases budget with
  | zero => cases visited
  | succ budget =>
      have rest := (List.cons.inj visited).2
      split at rest
      next next ran =>
          have unmarked := (Host.went_of_runStep ran).unmarked tells poised
          have there : here ∈ Host.visits reentry budget next := rest ▸ List.mem_append_cons_self
          exact Reports.unmarked (Course.moves_of_visits tells.admits trivial there) unmarked
      next => exact absurd rest.symm (List.append_ne_nil_of_right_ne_nil _ nofun)

theorem ends_runSteps_unmarked (poised : machine.Poised) :
    Ends (Host.runSteps reentry (budget + 1)) machine (fun _ after => after.Unmarked)
      fun _ _ => True := by
  cases ran : Host.runStep reentry machine with
  | error error after => exact Ends.of_error (Host.runSteps_of_fails ran) trivial
  | ok outcome next =>
      have unmarked := (Host.went_of_runStep ran).unmarked tells poised
      cases outcome with
      | some outcome => exact Ends.of_ok (Host.runSteps_of_ends ran) unmarked
      | none =>
          have rest := Course.follows_runSteps tells.admits budget next trivial
          have stays := Ends.mono rest (fun _ _ ended => Reports.unmarked ended.1 unmarked)
            fun _ _ _ => trivial
          simpa only [Ends, Host.runSteps_of_goesOn ran] using stays

/-- A slice that ends with a stop has its execution wait at the stop. -/
theorem ends_runSteps_stopped (lone : machine.Lone) (budget : Nat) :
    Ends (Host.runSteps reentry budget) machine
      (fun outcome after => outcome = .suspended → ∃ stop, after.StoppedAt stop)
      fun _ _ => True := by
  induction budget generalizing machine with
  | zero => exact ends_pure.mpr nofun
  | succ budget ih =>
      cases ran : Host.runStep reentry machine with
      | error error after => exact Ends.of_error (Host.runSteps_of_fails ran) trivial
      | ok outcome next =>
          have went := Host.went_of_runStep ran
          cases outcome with
          | none =>
              simpa only [Ends, Host.runSteps_of_goesOn ran] using ih (went.lone tells lone)
          | some outcome =>
              refine Ends.of_ok (Host.runSteps_of_ends ran) ?_
              rintro rfl
              exact went.stoppedAt tells lone

end Reentry.Reporting

end

/-! ## Executions that wait at a stop -/

namespace Execution.StoppedAt

variable {exec : Execution} {stop : StopEvent}

theorem single (stopped : exec.StoppedAt stop) :
    exec.pendingException = none ∨ exec.skipBreakpoint = none := by
  have marks := stopped.marks
  split at marks
  · exact .inl marks.1
  · exact .inr marks.2

/-- Where there is no object to throw on, the instruction at the pc is marked. -/
theorem skipBreakpoint_eq (stopped : exec.StoppedAt stop) (clear : exec.pendingException = none) :
    exec.skipBreakpoint = some (stop.method, exec.pc) := by
  have marks := stopped.marks
  split at marks
  · rw [marks.2, stopped.pc]
  · rw [clear] at marks
    cases marks.1

/-- When an execution that has slept is woken is no part of where it waits. -/
theorem waking (stopped : exec.StoppedAt stop) (wakeAt : Option Nat) :
    { exec with wakeAt }.StoppedAt stop :=
  ⟨stopped.id, stopped.method, stopped.pc, stopped.depth, stopped.marks⟩

end Execution.StoppedAt

namespace Machine

/-- Whether an execution waits where it was stopped. -/
def WaitsAt (machine : Machine) (id : ExecId) (stop : StopEvent) : Prop :=
  ∃ exec, machine.parked.find? (·.id == id) = some exec ∧ exec.StoppedAt stop

/-- Whether a machine reports a stop of an execution, which waits there. -/
structure HoldsAt (machine : Machine) (id : ExecId) (stop : StopEvent) : Prop where
  reported : machine.stopEvent? = some stop
  own : stop.exec = id
  line : stop.line = (machine.method stop.method).lineOf stop.pc
  waits : machine.WaitsAt id stop

namespace SwitchesTo

variable {machine resumed : Machine} {id : ExecId} {exec : Execution}
  (resumes : machine.SwitchesTo id exec resumed)

include resumes

theorem exec_eq : (Host.beginSlice resumed).exec = { exec with wakeAt := none } := by
  rw [resumes.same]
  rfl

theorem current : (Host.beginSlice resumed).exec.id = id := by
  rw [resumes.exec_eq]
  exact resumes.id_eq

/-- Nothing waits under the id of an execution that runs for another one. -/
theorem lone (apart : machine.exec.id ≠ id) : (Host.beginSlice resumed).Lone := by
  have parked : (Host.beginSlice resumed).parked = machine.exec ::
      (machine.parked.filter (·.id ≠ id)).filter (·.id ≠ machine.exec.id) := by
    rw [resumes.same]
    rfl
  refine .inr fun other waits same => ?_
  rw [resumes.current] at same
  rw [parked] at waits
  rcases List.mem_cons.mp waits with rfl | waits
  · exact (apart same).elim
  · have differs := (List.mem_filter.mp (List.mem_of_mem_filter waits)).2
    exact (of_decide_eq_true differs same).elim

theorem poised (apart : machine.exec.id ≠ id)
    (single : exec.pendingException = none ∨ exec.skipBreakpoint = none) :
    (Host.beginSlice resumed).Poised := by
  refine ⟨resumes.lone apart, ?_⟩
  rw [resumes.exec_eq]
  exact single

end SwitchesTo

end Machine

namespace Host

variable {reentry : Reentry} {machine resumed after left : Machine} {id : ExecId}
  {exec : Execution} {outcome : SliceOutcome}

/-- A slice runs its instructions, or the execution sleeps or cannot run. -/
theorem parkedVisits_of_resumed (reentry : Reentry) (found : machine.resumed? id = some resumed) :
    (parkedVisits reentry id machine =
        visits reentry resumed.config.sliceBudget (beginSlice resumed) ∧
      sliceFor reentry resumed.config.sliceBudget resumed =
        runSteps reentry resumed.config.sliceBudget (beginSlice resumed)) ∨
    (parkedVisits reentry id machine = [] ∧
      ((∃ error after, sliceFor reentry resumed.config.sliceBudget resumed = .error error after) ∨
        ∃ wakeAt, sliceFor reentry resumed.config.sliceBudget resumed =
          .ok (.sleeping wakeAt) resumed)) := by
  have visited : parkedVisits reentry id machine = if resumed.terminated then [] else
      sliceVisits reentry resumed.config.sliceBudget resumed := by rw [parkedVisits, found]
  rw [visited, sliceFor, sliceVisits]
  by_cases terminated : resumed.terminated = true
  · rw [if_pos terminated, if_pos terminated]
    exact .inr ⟨rfl, .inl ⟨_, _, rfl⟩⟩
  · rw [if_neg terminated, if_neg terminated]
    cases idle : resumed.exec.isIdle with
    | true =>
        refine .inr ⟨rfl, .inl ?_⟩
        simp only [runSlice, bind, EStateM.bind, run_get, idle, if_true]
        exact ⟨_, _, rfl⟩
    | false =>
        cases asleep : resumed.exec.wakeAt.filter (resumed.now < ·) with
        | none => exact .inl ⟨rfl, runSlice_of_due idle asleep _⟩
        | some wakeAt =>
            refine .inr ⟨rfl, .inr ⟨wakeAt, ?_⟩⟩
            simp only [runSlice, bind, EStateM.bind, run_get, idle, asleep, Bool.false_eq_true,
              if_false]
            rfl

/-- A slice of what waits that has not ended it. -/
theorem runParkedSlice_of_unfinished (ran : runParkedSlice reentry id machine = .ok outcome after)
    (unfinished : ∀ value, outcome ≠ .finished value) :
    ∃ exec resumed left, machine.SwitchesTo id exec resumed ∧ machine.resumed? id = some resumed ∧
      sliceFor reentry resumed.config.sliceBudget resumed = .ok outcome left ∧
      after = (left.switchBack machine.exec.id).2.park left.exec := by
  cases found : machine.resumed? id with
  | none =>
      rw [resumed?] at found
      rw [runParkedSlice] at ran
      cases taken : machine.takeCompleted id with
      | some finished =>
          rw [taken] at ran
          cases ran
          exact (unfinished _ rfl).elim
      | none =>
          rw [taken, Option.isSome_none, if_neg Bool.false_ne_true, Option.map_eq_none_iff] at found
          rw [taken, found] at ran
          cases ran
  | some resumed =>
      obtain ⟨exec, resumes⟩ := exists_switchesTo found
      rw [runParkedSlice_of_resumed found] at ran
      cases slice : sliceFor reentry resumed.config.sliceBudget resumed with
      | error error left =>
          rw [slice] at ran
          cases ran
      | ok ended left =>
          rw [slice] at ran
          cases ended with
          | finished value =>
              cases ran
              exact (unfinished value rfl).elim
          | yielded | blocked | suspended | sleeping =>
              cases ran
              exact ⟨exec, resumed, left, resumes, rfl, slice, rfl⟩

/-- What has had a slice waits as it was left. -/
theorem find?_park_switchBack (left : Machine) (current : ExecId) (own : left.exec.id = id) :
    ((left.switchBack current).2.park left.exec).parked.find? (·.id == id) = some left.exec :=
  List.find?_cons_of_pos (beq_iff_eq.mpr own)

/-- What runs no instruction is left where it was. -/
theorem exec_of_unvisited (resumes : machine.SwitchesTo id exec resumed)
    (found : machine.resumed? id = some resumed)
    (slice : sliceFor reentry resumed.config.sliceBudget resumed = .ok outcome left)
    (unvisited : parkedVisits reentry id machine = []) :
    ∃ wakeAt, left.exec = { exec with wakeAt } := by
  rcases parkedVisits_of_resumed reentry found with
    ⟨visits, runs⟩ | ⟨-, ⟨error, after, fails⟩ | ⟨wakeAt, sleeps⟩⟩
  · rw [visits] at unvisited
    rw [runs] at slice
    cases budget : resumed.config.sliceBudget with
    | zero =>
        rw [budget] at slice
        cases slice
        exact ⟨none, resumes.exec_eq⟩
    | succ budget' =>
        rw [budget] at unvisited
        cases unvisited
  · cases fails.symm.trans slice
  · cases sleeps.symm.trans slice
    rw [resumes.same]
    exact ⟨exec.wakeAt, rfl⟩

/-- What runs an instruction has no mark any more. -/
theorem unmarked_of_visited (tells : reentry.Reporting)
    (resumes : machine.SwitchesTo id exec resumed) (found : machine.resumed? id = some resumed)
    (slice : sliceFor reentry resumed.config.sliceBudget resumed = .ok outcome left)
    (apart : machine.exec.id ≠ id)
    (single : exec.pendingException = none ∨ exec.skipBreakpoint = none)
    (some : parkedVisits reentry id machine ≠ []) : left.Unmarked := by
  rcases parkedVisits_of_resumed reentry found with ⟨visits, runs⟩ | ⟨none, -⟩
  · rw [runs] at slice
    cases budget : resumed.config.sliceBudget with
    | zero =>
        rw [visits, budget] at some
        exact (some rfl).elim
    | succ budget' =>
        rw [budget] at slice
        have unmarked := ends_of_ok slice
          (tells.ends_runSteps_unmarked (resumes.poised apart single))
        exact unmarked
  · exact (some none).elim

/-- An execution that a slice leaves stopped waits at the stop that is reported. -/
theorem holdsAt_of_slice (tells : reentry.Reporting) (apart : machine.exec.id ≠ id)
    (ran : runParkedSlice reentry id machine = .ok .suspended after) :
    ∃ stop, after.HoldsAt id stop := by
  obtain ⟨exec, resumed, left, resumes, found, slice, rfl⟩ :=
    runParkedSlice_of_unfinished ran nofun
  rcases parkedVisits_of_resumed reentry found with
    ⟨-, runs⟩ | ⟨-, ⟨error, after, fails⟩ | ⟨wakeAt, sleeps⟩⟩
  · rw [runs] at slice
    obtain ⟨stop, stopped⟩ := ends_of_ok slice
      (tells.ends_runSteps_stopped (resumes.lone apart) _) rfl
    have reports := (ends_of_ok slice (Course.follows_runSteps tells.admits _ _ trivial)).1
    have own : left.exec.id = id := (Reports.id reports).trans resumes.current
    obtain ⟨other, -, same, -⟩ := left.switchBack_eq machine.exec.id
    refine ⟨stop, ?_, stopped.exec.id.symm.trans own, ?_, left.exec,
      find?_park_switchBack left _ own, stopped.exec⟩
    · rw [same]
      exact stopped.reported
    · rw [same]
      exact stopped.line
  · cases fails.symm.trans slice
  · cases sleeps.symm.trans slice

end Host

/-! ## Instructions of slices -/

namespace Host

/-- Whether a machine is one that an instruction of a slice starts from, and what comes of the
slice if the instruction is its last. -/
structure Visits (reentry : Reentry) (id : ExecId) (machine : Machine) (earlier : List Machine)
    (here : Machine) (later : List Machine) (exec : Execution) (resumed : Machine) : Prop where
  resumes : machine.SwitchesTo id exec resumed
  all : visits reentry resumed.config.sliceBudget (beginSlice resumed) = earlier ++ here :: later
  reports : (beginSlice resumed).Reports here
  rest : ∀ there ∈ later, here.Reports there
  ends : ∀ {outcome after}, runStep reentry here = .ok (some outcome) after →
    later = [] ∧ runParkedSlice reentry id machine = putBack machine.exec.id (.ok outcome after)

variable {reentry : Reentry} {machine resumed here : Machine} {id : ExecId} {exec : Execution}
  {earlier later : List Machine}

theorem exists_visits (tells : reentry.Reporting)
    (visited : parkedVisits reentry id machine = earlier ++ here :: later) :
    ∃ exec resumed, Visits reentry id machine earlier here later exec resumed := by
  cases found : machine.resumed? id with
  | none =>
      rw [parkedVisits, found] at visited
      exact absurd visited.symm (List.append_ne_nil_of_right_ne_nil _ nofun)
  | some resumed =>
      obtain ⟨exec, resumes⟩ := exists_switchesTo found
      rcases parkedVisits_of_resumed reentry found with ⟨visits, runs⟩ | ⟨none, -⟩
      · rw [visits] at visited
        obtain ⟨left, same, rest⟩ := runSteps_of_visits visited
        refine ⟨exec, resumed, resumes, visited, ?_, fun there member => ?_, fun ran => ?_⟩
        · have member : here ∈ Host.visits reentry resumed.config.sliceBudget
            (beginSlice resumed) := visited ▸ List.mem_append_cons_self
          exact Course.moves_of_visits tells.admits trivial member
        · have member : there ∈ Host.visits reentry (left + 1) here := rest ▸ .tail _ member
          exact Course.moves_of_visits tells.admits trivial member
        · have last : Host.visits reentry (left + 1) here = [here] := by
            rw [Host.visits, ran]
          rw [runParkedSlice_of_resumed found, runs, same, runSteps_of_ends ran]
          exact ⟨(List.cons.inj (rest.symm.trans last)).2, rfl⟩
      · rw [none] at visited
        exact absurd visited.symm (List.append_ne_nil_of_right_ne_nil _ nofun)

namespace Visits

variable (visits : Visits reentry id machine earlier here later exec resumed)

include visits

theorem id_eq : here.exec.id = id := visits.reports.id.trans visits.resumes.current

theorem attached_eq : here.debuggerAttached = machine.debuggerAttached := by
  rw [visits.reports.attached, visits.resumes.same]
  rfl

theorem keeps : machine.debugger.Keeps here.debugger := by
  have keeps := visits.reports.debugger
  rw [visits.resumes.same] at keeps
  exact keeps

/-- The first instruction starts where the execution waited. -/
theorem first (none : earlier = []) : here = beginSlice resumed := by
  have all := visits.all
  subst none
  cases budget : resumed.config.sliceBudget with
  | zero =>
      rw [budget] at all
      cases all
  | succ left =>
      rw [budget] at all
      exact (List.cons.inj all).1.symm

/-- From the second instruction on nothing is marked. -/
theorem skipBreakpoint_eq (tells : reentry.Reporting) (apart : machine.exec.id ≠ id)
    (single : exec.pendingException = none ∨ exec.skipBreakpoint = none) (some : earlier ≠ [])
    (running : here.debugger.isStopped = false) : here.exec.skipBreakpoint = none :=
  (tells.unmarked_of_visits (visits.resumes.poised apart single) visits.all
    some).skipBreakpoint_eq running

end Visits

end Host

/-! ## Slice after slice -/

namespace Debugger

/-- How a debugger changes while an outstanding step is neither given up nor replaced, unless
something is stopped. A stop may be requested. -/
structure Retains (before after : Debugger) : Prop where
  exact : before.Exact → after.Exact
  running : after.isStopped = false → before.isStopped = false
  outstanding : before.Exact → after.isStopped = false → after.step = before.step

variable {before after first second third : Debugger}

theorem Keeps.retains (keeps : before.Keeps after) : before.Retains after where
  exact := keeps.exact
  running running := by
    rw [← Bool.not_eq_true] at running ⊢
    exact fun stopped => running (keeps.stopped stopped ▸ stopped)
  outstanding exact running := by rw [keeps.outstanding exact running]

theorem Retains.trans (left : first.Retains second) (right : second.Retains third) :
    first.Retains third where
  exact exact := right.exact (left.exact exact)
  running running := left.running (right.running running)
  outstanding exact running :=
    (right.outstanding (left.exact exact) running).trans
      (left.outstanding exact (right.running running))

end Debugger

/-- What else may be done to a machine while an execution waits: what leaves the execution
alone, and its outstanding step. -/
structure Machine.LeavesBe (id : ExecId) (before after : Machine) : Prop where
  waits : after.parked.find? (·.id == id) = before.parked.find? (·.id == id)
  apart : after.exec.id ≠ id
  attached : after.debuggerAttached = before.debuggerAttached
  debugger : before.debugger.Retains after.debugger

namespace Host

/-- Slice after slice of an execution, with what else is done in between: the machines that its
instructions start from, and the machine in which it has its next slice. -/
inductive Slices (reentry : Reentry) (id : ExecId) (going : Machine) :
    List Machine → Machine → Prop
  | start {between : Machine} (leaves : going.LeavesBe id between) :
      Slices reentry id going [] between
  | goesOn {visited : List Machine} {machine after between : Machine} {outcome : SliceOutcome}
      (slices : Slices reentry id going visited machine)
      (ran : runParkedSlice reentry id machine = .ok outcome after)
      (unfinished : ∀ value, outcome ≠ .finished value) (leaves : after.LeavesBe id between) :
      Slices reentry id going (visited ++ parkedVisits reentry id machine) between

/-- Where an execution is that goes on from a stop. -/
structure Underway (id : ExecId) (stop : StopEvent) (going : Machine) (visited : List Machine)
    (machine : Machine) : Prop where
  apart : machine.exec.id ≠ id
  attached : machine.debuggerAttached = going.debuggerAttached
  debugger : going.debugger.Retains machine.debugger
  first : visited = [] → machine.WaitsAt id stop
  later : visited ≠ [] → machine.debugger.isStopped = false →
    ∀ exec, machine.parked.find? (·.id == id) = some exec → exec.skipBreakpoint = none

variable {reentry : Reentry} {machine resumed after here going : Machine} {id : ExecId}
  {exec : Execution} {stop : StopEvent} {earlier later visited : List Machine}

namespace Underway

/-- No mark outlasts the first instruction, since there is one only while that is to come. -/
theorem single (underway : Underway id stop going visited machine)
    (running : machine.debugger.isStopped = false)
    (resumes : machine.SwitchesTo id exec resumed) :
    exec.pendingException = none ∨ exec.skipBreakpoint = none := by
  by_cases none : visited = []
  · obtain ⟨other, waits, stopped⟩ := underway.first none
    cases resumes.waits.symm.trans waits
    exact stopped.single
  · exact .inr (underway.later none running exec resumes.waits)

/-- A slice goes on from where the execution was. -/
theorem goesOn (underway : Underway id stop going visited machine) (tells : reentry.Reporting)
    {outcome : SliceOutcome} (ran : runParkedSlice reentry id machine = .ok outcome after)
    (unfinished : ∀ value, outcome ≠ .finished value) {between : Machine}
    (leaves : after.LeavesBe id between) :
    Underway id stop going (visited ++ parkedVisits reentry id machine) between := by
  have reports : machine.Reports after :=
    (ends_of_ok ran (tells.runParkedSlice id machine trivial)).1
  have retains := reports.debugger.retains.trans leaves.debugger
  obtain ⟨exec, resumed, left, resumes, found, slice, rfl⟩ :=
    runParkedSlice_of_unfinished ran unfinished
  have sliced := (ends_of_ok slice (tells.sliceFor _ resumed trivial)).1
  have own : left.exec.id = id := by
    rw [Reports.id sliced, resumes.same]
    exact resumes.id_eq
  have waits : between.parked.find? (·.id == id) = some left.exec :=
    leaves.waits.trans (find?_park_switchBack left _ own)
  have calm : between.debugger.isStopped = false → left.debugger.isStopped = false := by
    intro running
    obtain ⟨_, -, same, -⟩ := left.switchBack_eq machine.exec.id
    have late := leaves.debugger.running running
    rw [same] at late
    exact late
  refine ⟨leaves.apart, (leaves.attached.trans reports.attached).trans underway.attached,
    underway.debugger.trans retains, fun none => ?_, fun some running other there => ?_⟩
  · obtain ⟨other, there, stopped⟩ := underway.first (List.append_eq_nil_iff.mp none).1
    cases resumes.waits.symm.trans there
    obtain ⟨wakeAt, same⟩ :=
      exec_of_unvisited resumes found slice (List.append_eq_nil_iff.mp none).2
    exact ⟨left.exec, waits, same ▸ stopped.waking wakeAt⟩
  · cases waits.symm.trans there
    by_cases none : parkedVisits reentry id machine = []
    · obtain ⟨wakeAt, same⟩ := exec_of_unvisited resumes found slice none
      rw [same]
      refine underway.later (fun unvisited => some ?_) (retains.running running) exec resumes.waits
      rw [unvisited, none, List.append_nil]
    · have unmarked := unmarked_of_visited tells resumes found slice underway.apart
        (underway.single (retains.running running) resumes) none
      exact unmarked.skipBreakpoint_eq (calm running)

/-- While nothing is stopped, an instruction after the first one finds the step as it was taken,
and no mark. -/
theorem outstanding (underway : Underway id stop going visited machine)
    (tells : reentry.Reporting) (exact : going.debugger.Exact)
    (seen : parkedVisits reentry id machine = earlier ++ here :: later)
    (past : visited ++ earlier ≠ []) (running : here.debugger.isStopped = false) :
    here.exec.skipBreakpoint = none ∧ here.exec.id = id ∧ here.debugger.Exact ∧
      here.debugger.step = going.debugger.step := by
  obtain ⟨exec, resumed, visits⟩ := exists_visits tells seen
  have retains := underway.debugger.trans visits.keeps.retains
  have still : machine.debugger.isStopped = false := visits.keeps.retains.running running
  refine ⟨?_, visits.id_eq, retains.exact exact, retains.outstanding exact running⟩
  by_cases none : earlier = []
  · have some : visited ≠ [] := by
      rintro rfl
      exact past none
    rw [visits.first none, visits.resumes.exec_eq]
    exact underway.later some still exec visits.resumes.waits
  · exact visits.skipBreakpoint_eq tells underway.apart (underway.single still visits.resumes) none
      running

end Underway

theorem Slices.underway (slices : Slices reentry id going visited machine)
    (tells : reentry.Reporting) (waits : going.WaitsAt id stop) :
    Underway id stop going visited machine := by
  induction slices with
  | start leaves =>
      obtain ⟨exec, there, stopped⟩ := waits
      exact ⟨leaves.apart, leaves.attached, leaves.debugger,
        fun _ => ⟨exec, leaves.waits.trans there, stopped⟩, fun some => (some rfl).elim⟩
  | goesOn _ ran unfinished leaves ih => exact ih.goesOn tells ran unfinished leaves

end Host

/-! ## What a host does -/

/-- What a host may do next: it has guest code run, commands the debugger, or does what leaves
the debugger alone. -/
inductive Host.Controls (bounds : Bounds) (before : Machine) : Machine → Prop
  | slices {id : ExecId} {after : Machine} (leaves : Leaves (slice bounds id) before after) :
      Controls bounds before after
  | prepares {className name descriptor : String} {arguments : List Value} {after : Machine}
      (leaves : Leaves (prepareExecution bounds className name descriptor arguments) before after) :
      Controls bounds before after
  | invokes {method : MethodId} {arguments : List Value} {after : Machine}
      (leaves : Leaves (invoke bounds method arguments) before after) :
      Controls bounds before after
  | initializes {id : ClassId} {after : Machine}
      (leaves : Leaves (initializeClass (runToCompletion bounds.reentry bounds.slices) id)
        before after) : Controls bounds before after
  | runsThreads {after : Machine} (leaves : Leaves (runGuestSlices bounds.reentry) before after) :
      Controls bounds before after
  | requestsStop : Controls bounds before before.requestStop
  | resumes : Controls bounds before before.resume.2
  | steps {mode : StepMode} {after : Machine} (taken : before.takeStep mode = .ok after) :
      Controls bounds before after
  | breaksOnExceptions (enabled : Bool) : Controls bounds before (before.setExceptionBreak enabled)
  | other {after : Machine} (same : after.debugger = before.debugger) :
      Controls bounds before after

namespace Machine

theorem exact_of_start {config : Config} {classes : ClassPath} {machine : Machine}
    (started : start config classes = .ok machine) : machine.debugger.Exact := by
  simp only [start, Except.bind_eq_ok] at started
  obtain ⟨bootstrap, -, before, linked, prepared⟩ := started
  have exact : before.debugger.Exact := by
    simp only [Machine.linked, Except.bind_eq_ok, pure, Except.pure, Except.ok.injEq] at linked
    obtain ⟨_, _, _, _, rfl⟩ := linked
    rfl
  have makes : reporting.Follows (Guest.newThrowable ExceptionKind.outOfMemoryError.className
      (some "Java heap space")) := .of_blind fun _ => Guest.blind_newThrowable _ _
  rw [prepareOutOfMemory] at prepared
  dsimp only at prepared
  split at prepared
  next ref made ran =>
      cases prepared
      exact (Reports.debugger (ends_of_ok ran (makes before trivial)).1).exact exact
  next => cases prepared
  next => cases prepared

end Machine

namespace Host

variable {bounds : Bounds} {before after : Machine}

/-- Whatever the host does, instructions ask exactly while something is outstanding. -/
theorem Controls.exact (controls : Controls bounds before after)
    (exact : before.debugger.Exact) : after.debugger.Exact := by
  have tells : bounds.reentry.Reporting := Reentry.reporting_ofDepth _ _
  have completes : reporting.Follows (runToCompletion bounds.reentry bounds.slices) :=
    Course.follows_runToCompletion tells.admits tells.runGuestSlices _
  have runs : ∀ {α : Type} {step : Host α}, reporting.Follows step → Leaves step before after →
      after.debugger.Exact := fun follows leaves =>
    (Reports.debugger (Moves.leaves (follows before trivial) leaves)).exact exact
  cases controls with
  | slices leaves => exact runs (tells.runParkedSlice _) leaves
  | prepares leaves =>
      refine runs (.bind (.of_blind fun _ => blind_findStatic _ _ _) fun method => ?_) leaves
      exact tells.prepare method _
  | invokes leaves =>
      refine runs ((Course.follows_enterMethod tells.admits completes _ _).bind fun entered => ?_)
        leaves
      split
      · exact .pure _
      · exact completes
  | initializes leaves => exact runs (Course.follows_initializeClass completes _) leaves
  | runsThreads leaves => exact runs tells.runGuestSlices leaves
  | requestsStop => exact Debugger.exact_rearm _
  | resumes => exact Debugger.exact_rearm _
  | steps taken =>
      rw [takeStep, Debugger.takeStep] at taken
      split at taken
      · cases taken
      · cases taken
        exact Debugger.exact_rearm _
  | breaksOnExceptions => exact exact
  | other same => exact same ▸ exact

end Host

/-! ## Steps -/

namespace Host

/-- What becomes of an instruction of an execution that waited at a stop: where the execution
waits before an instruction, that runs and the debugger is not asked. No later instruction of
the slice is marked. -/
structure GoesOnFrom (reentry : Reentry) (stop : StopEvent) (exec : Execution) (here : Machine)
    (later : List Machine) : Prop where
  same : here.exec = { exec with wakeAt := none }
  runs : ∀ {byte}, here.Faces stop.method byte → runStep reentry here =
    instruct reentry stop.method (here.byteUnder stop.method byte) (here.admitting here.debugger)
  unmarked : ∀ there ∈ later, there.isStopped = false → there.exec.skipBreakpoint = none

/-- What an outstanding step makes of an instruction of a slice: if the step is over there, the
slice ends with the execution stopped before the instruction. If not the instruction runs, unless
there is a breakpoint. -/
structure Awaits (reentry : Reentry) (id : ExecId) (request : StepRequest) (machine here : Machine)
    (later : List Machine) (method : MethodId) (byte : UInt8) : Prop where
  outstanding : here.debugger.step = some request
  ends : request.EndsAt (here.placeIn method) →
    later = [] ∧ runParkedSlice reentry id machine = putBack machine.exec.id
      (.ok .suspended (here.halted (here.debugger.sated .step) .step method))
  passes : ¬request.EndsAt (here.placeIn method) →
    runStep reentry here =
        instruct reentry method (here.byteUnder method byte) (here.admitting here.debugger) ∨
      byte = Opcode.breakpoint.byte ∧ runStep reentry here =
        .ok (some .suspended) (here.halted here.debugger .breakpoint method)

/-- What a requested stop makes of an instruction of a slice: if it is not the one that is marked,
the slice ends with the execution stopped before it. If the slice goes on, the request stands. -/
structure Heeds (reentry : Reentry) (id : ExecId) (machine here : Machine) (later : List Machine)
    (method : MethodId) : Prop where
  ends : here.exec.skipBreakpoint ≠ some (method, here.exec.pc) →
    later = [] ∧ runParkedSlice reentry id machine = putBack machine.exec.id
      (.ok .suspended (here.halted (here.debugger.sated .requested) .requested method))
  stands : ∀ there ∈ later, there.isStopped = false → there.debugger.stopRequested = true

section

variable {reentry : Reentry} {machine here going told : Machine} {id : ExecId} {stop : StopEvent}
  {earlier later visited : List Machine} {method : MethodId} {byte : UInt8}
  (tells : reentry.Reporting)

theorem stepping_of_holdsAt (holds : told.HoldsAt id stop) (mode : StepMode) :
    ∃ stepping, told.takeStep mode = .ok stepping ∧ stepping.parked = told.parked ∧
      stepping.debuggerAttached = told.debuggerAttached ∧ stepping.debugger.Exact ∧
      stepping.debugger.step = some (stop.request mode) := by
  have stopped : told.debugger.stopped = some stop := holds.reported
  simp only [takeStep, Debugger.takeStep, stopped]
  exact ⟨_, rfl, rfl, rfl, Debugger.exact_rearm _, rfl⟩

include tells

/-- The debugger gets the stop that it wants, and the slice is over. -/
theorem stops_of_wants (exact : machine.debugger.Exact) (attached : machine.debuggerAttached = true)
    (seen : parkedVisits reentry id machine = earlier ++ here :: later)
    (running : here.debugger.isStopped = false) (faces : here.Faces method byte)
    (unmarked : here.exec.skipBreakpoint ≠ some (method, here.exec.pc)) {reason : StopReason}
    (wants : here.debugger.Wants id (here.placeIn method) reason) :
    later = [] ∧ runParkedSlice reentry id machine = putBack machine.exec.id
      (.ok .suspended (here.halted (here.debugger.sated reason) reason method)) := by
  obtain ⟨exec, resumed, visits⟩ := exists_visits tells seen
  rw [← visits.id_eq] at wants
  exact visits.ends (runStep_of_wants faces unmarked (visits.keeps.exact exact)
    (visits.attached_eq.trans attached) running wants)

/-- An execution that goes on from a stop starts where it was stopped, and whatever instruction
was marked is so no more once it has run. -/
theorem goesOnFrom_of_stoppedAt (apart : going.exec.id ≠ id) {exec : Execution}
    (found : going.parked.find? (·.id == id) = some exec) (stopped : exec.StoppedAt stop)
    (visited : parkedVisits reentry id going = here :: later) :
    GoesOnFrom reentry stop exec here later := by
  have same : here.exec = { exec with wakeAt := none } := by
    obtain ⟨other, resumed, visits⟩ :=
      exists_visits tells (show parkedVisits reentry id going = [] ++ here :: later from visited)
    cases visits.resumes.waits.symm.trans found
    rw [visits.first rfl, visits.resumes.exec_eq]
  refine ⟨same, fun faces => runStep_of_marked faces ?_, fun there member running => ?_⟩
  · have clear := faces.clear
    rw [same] at clear ⊢
    exact stopped.skipBreakpoint_eq clear
  · obtain ⟨before, after, rfl⟩ := List.append_of_mem member
    obtain ⟨other, resumed, visits⟩ := exists_visits tells
      (show parkedVisits reentry id going = (here :: before) ++ there :: after from visited)
    cases visits.resumes.waits.symm.trans found
    exact visits.skipBreakpoint_eq tells apart stopped.single (List.cons_ne_nil _ _) running

theorem Underway.awaits (underway : Underway id stop going visited machine) {mode : StepMode}
    (own : stop.exec = id) (attached : going.debuggerAttached = true)
    (exact : going.debugger.Exact) (taken : going.debugger.step = some (stop.request mode))
    (seen : parkedVisits reentry id machine = earlier ++ here :: later)
    (past : visited ++ earlier ≠ []) (running : here.debugger.isStopped = false)
    (unasked : here.debugger.stopRequested = false) (faces : here.Faces method byte) :
    Awaits reentry id (stop.request mode) machine here later method byte := by
  obtain ⟨mark, current, kept, same⟩ := underway.outstanding tells exact seen past running
  have outstanding := same.trans taken
  have unmarked : here.exec.skipBreakpoint ≠ some (method, here.exec.pc) := by
    rw [mark]
    nofun
  have wanted : ∀ reason, here.debugger.Wants id (here.placeIn method) reason ↔
      reason = .step ∧ (stop.request mode).EndsAt (here.placeIn method) := by
    intro reason
    cases reason with
    | requested => simp [Debugger.Wants, unasked]
    | breakpoint | exception => simp [Debugger.Wants]
    | step => simp [Debugger.Wants, unasked, outstanding, StopEvent.request, own]
  refine ⟨outstanding, fun ends => ?_, fun goesOn => ?_⟩
  · exact stops_of_wants tells (underway.debugger.exact exact)
      (underway.attached.trans attached) seen running faces unmarked
      ((wanted .step).mpr ⟨rfl, ends⟩)
  · refine runStep_of_not_wants faces unmarked kept fun reason wants => goesOn ?_
    rw [current] at wants
    exact ((wanted reason).mp wants).2

/-- A stop that is requested stays so until something is stopped, and the first instruction that
asks is stopped at. -/
theorem heeds_of_requested (exact : machine.debugger.Exact)
    (attached : machine.debuggerAttached = true)
    (seen : parkedVisits reentry id machine = earlier ++ here :: later)
    (running : here.debugger.isStopped = false) (asked : here.debugger.stopRequested = true)
    (faces : here.Faces method byte) : Heeds reentry id machine here later method where
  ends unmarked := stops_of_wants tells exact attached seen running faces unmarked asked
  stands there member calm := by
    obtain ⟨exec, resumed, visits⟩ := exists_visits tells seen
    have late : there.debugger = here.debugger :=
      (visits.rest there member).debugger.outstanding (visits.keeps.exact exact) calm
    rw [late]
    exact asked

end

/-- Steps end at the first instruction that they describe. -/
theorem steps_end_first (bounds : Bounds) :
    (∀ id before told, before.exec.id ≠ id → before.debuggerAttached = true →
      slice bounds id before = .ok .suspended told →
      ∃ stop, told.HoldsAt id stop ∧
        (∀ going exec here later, going.exec.id ≠ id →
          going.parked.find? (·.id == id) = some exec → exec.StoppedAt stop →
          parkedVisits bounds.reentry id going = here :: later →
          GoesOnFrom bounds.reentry stop exec here later) ∧
        ∀ mode, ∃ stepping, told.takeStep mode = .ok stepping ∧
          ∀ visited machine, Slices bounds.reentry id stepping visited machine →
            (visited = [] → machine.exec.id ≠ id ∧ machine.WaitsAt id stop) ∧
            ∀ earlier here later,
              parkedVisits bounds.reentry id machine = earlier ++ here :: later →
              visited ++ earlier ≠ [] → here.isStopped = false →
              here.debugger.stopRequested = false → ∀ method byte, here.Faces method byte →
                Awaits bounds.reentry id (stop.request mode) machine here later method byte) ∧
    (∀ config classes first reached, start config classes = .ok first →
      ReflTransGen (Controls bounds) first reached →
      (reached.debugger.armed = true ↔
        reached.debugger.stopRequested = true ∨ reached.debugger.step.isSome = true)) ∧
    ∀ id machine earlier here later, machine.debugger.Exact → machine.debuggerAttached = true →
      parkedVisits bounds.reentry id machine = earlier ++ here :: later →
      here.isStopped = false → here.debugger.stopRequested = true →
      ∀ method byte, here.Faces method byte →
        Heeds bounds.reentry id machine here later method := by
  have tells : bounds.reentry.Reporting := Reentry.reporting_ofDepth _ _
  refine ⟨fun id before told apart attached ran => ?_, ?_, ?_⟩
  · obtain ⟨stop, holds⟩ := holdsAt_of_slice tells apart ran
    refine ⟨stop, holds, fun going exec here later apart =>
      goesOnFrom_of_stoppedAt tells apart, fun mode => ?_⟩
    obtain ⟨stepping, taken, parked, same, exact, step⟩ := stepping_of_holdsAt holds mode
    have reports : before.Reports told :=
      (ends_of_ok ran (tells.runParkedSlice id before trivial)).1
    have waits : stepping.WaitsAt id stop := by
      rw [WaitsAt, parked]
      exact holds.waits
    refine ⟨stepping, taken, fun visited machine slices => ?_⟩
    have underway := slices.underway tells waits
    refine ⟨fun none => ⟨underway.apart, underway.first none⟩, ?_⟩
    intro earlier here later seen past running unasked method byte faces
    exact underway.awaits tells holds.own ((same.trans reports.attached).trans attached) exact step
      seen past running unasked faces
  · intro config classes first reached started reaches
    have exact : reached.debugger.Exact := by
      induction reaches with
      | refl => exact exact_of_start started
      | tail _ controls ih => exact controls.exact ih
    rw [exact, Bool.or_eq_true]
  · intro id machine earlier here later exact attached seen running asked method byte faces
    exact heeds_of_requested tells exact attached seen running asked faces

/-! ## Steps of an execution beside another one -/

/-- An execution of a method that the host has called. -/
def called (id : ExecId) (code : Array UInt8) (index : UInt16) : Execution :=
  (Execution.idle id 64).enter (nullary code) ⟨⟨0⟩, index⟩ 0 0

/-- A machine with two executions that wait, each before a breakpoint. -/
def pausing : Machine where
  config := {}
  registry := { classes := #[classOf [nullary #[0xCA, 0, 0xB1], nullary #[0xCA, 0xB1]]] }
  known := default
  heap := Heap.ofConfig {}
  exec := Execution.idle Execution.mainId 64
  parked := [called 2 #[0xCA, 0, 0xB1] 0, called 3 #[0xCA, 0xB1] 1]
  debuggerAttached := true
  breakpoints := [((⟨⟨0⟩, 0⟩, 0), 0), ((⟨⟨0⟩, 1⟩, 0), 0)]
  nextExec := 4

/-- The stop of the first one. -/
def pausingStop : StopEvent := ⟨2, .breakpoint, ⟨⟨0⟩, 0⟩, "F.f()V", none, 0, 1⟩

/-- The machine that has stopped it. -/
def paused : Machine := leftBy (slice {} 2 pausing)

/-- The machine that is to step over its instruction. -/
def stepping : Machine :=
  { paused with debugger := (paused.debugger.takeStep .over).toOption.getD {} }

/-- The machine that has stopped the other one meanwhile. -/
def interrupted : Machine := leftBy (slice {} 3 stepping)

set_option maxRecDepth 20000 in
theorem slice_pausing : Answers .suspended (slice {} 2 pausing) := by decide +kernel

set_option maxRecDepth 20000 in
theorem slice_stepping : Answers .suspended (slice {} 3 stepping) := by decide +kernel

set_option maxRecDepth 20000 in
theorem holdsAt_paused {stop : StopEvent} (holds : paused.HoldsAt 2 stop) : stop = pausingStop := by
  have reported : paused.stopEvent? = some pausingStop := by decide +kernel
  exact Option.some.inj (holds.reported.symm.trans reported)

set_option maxRecDepth 20000 in
/-- A step over an instruction ends at the next one, and a requested stop is before that, too. -/
theorem steps_end_first_pausing :
    pausing.exec.id ≠ 2 ∧ pausing.debuggerAttached = true ∧
      slice {} 2 pausing = .ok .suspended paused ∧ paused.takeStep .over = .ok stepping ∧
      (∃ first here, parkedVisits (Bounds.reentry {}) 2 stepping = [first, here] ∧
        here.exec.pc = 1 ∧
        slice {} 2 stepping = putBack stepping.exec.id
          (.ok .suspended (here.halted (here.debugger.sated .step) .step ⟨⟨0⟩, 0⟩))) ∧
      ∃ first here, parkedVisits (Bounds.reentry {}) 2 stepping.requestStop = [first, here] ∧
        here.exec.pc = 1 ∧
        slice {} 2 stepping.requestStop = putBack stepping.exec.id
          (.ok .suspended (here.halted (here.debugger.sated .requested) .requested ⟨⟨0⟩, 0⟩)) := by
  have apart : pausing.exec.id ≠ 2 := by decide
  have taken : paused.takeStep .over = .ok stepping := rfl
  refine ⟨apart, rfl, slice_pausing, taken, ?_, ?_⟩
  · obtain ⟨stop, holds, -, steps⟩ :=
      (steps_end_first {}).1 2 pausing paused apart rfl slice_pausing
    cases holdsAt_paused holds
    obtain ⟨other, same, slices⟩ := steps .over
    cases taken.symm.trans same
    have leaves : stepping.LeavesBe 2 stepping :=
      ⟨rfl, by decide +kernel, rfl, fun exact => exact, id, fun _ _ => rfl⟩
    have both : (parkedVisits (Bounds.reentry {}) 2 stepping).length = 2 := by decide +kernel
    obtain ⟨first, here, all⟩ := List.length_eq_two.mp both
    have faces : ∀ here ∈ (parkedVisits (Bounds.reentry {}) 2 stepping)[1]?,
        here.exec.pc = 1 ∧ here.isStopped = false ∧ here.debugger.stopRequested = false ∧
          here.Faces ⟨⟨0⟩, 0⟩ 0 ∧ (pausingStop.request .over).EndsAt (here.placeIn ⟨⟨0⟩, 0⟩) := by
      decide +kernel
    rw [all] at faces
    obtain ⟨place, running, unasked, faces, ends⟩ := faces here rfl
    have awaits := (slices [] stepping (.start leaves)).2 [first] here [] all nofun running unasked
      ⟨⟨0⟩, 0⟩ 0 faces
    exact ⟨first, here, all, place, (awaits.ends ends).2⟩
  · have both : (parkedVisits (Bounds.reentry {}) 2 stepping.requestStop).length = 2 := by
      decide +kernel
    obtain ⟨first, here, all⟩ := List.length_eq_two.mp both
    have faces : ∀ here ∈ (parkedVisits (Bounds.reentry {}) 2 stepping.requestStop)[1]?,
        here.exec.pc = 1 ∧ here.isStopped = false ∧ here.debugger.stopRequested = true ∧
          here.Faces ⟨⟨0⟩, 0⟩ 0 ∧ here.exec.skipBreakpoint ≠ some (⟨⟨0⟩, 0⟩, here.exec.pc) := by
      decide +kernel
    rw [all] at faces
    obtain ⟨place, running, asked, faces, unmarked⟩ := faces here rfl
    have heeds := (steps_end_first {}).2.2 2 stepping.requestStop [first] here []
      (Debugger.exact_rearm _) rfl all running asked ⟨⟨0⟩, 0⟩ 0 faces
    exact ⟨first, here, all, place, (heeds.ends unmarked).2⟩

set_option maxRecDepth 20000 in
/-- While another execution is stopped, an execution passes the end of its step. -/
theorem steps_pass_while_stopped :
    ¬∀ (bounds : Bounds) (id : ExecId) (before told stepping machine here : Machine)
      (stop : StopEvent) (mode : StepMode) (visited earlier later : List Machine)
      (method : MethodId) (byte : UInt8),
      before.exec.id ≠ id → before.debuggerAttached = true →
      slice bounds id before = .ok .suspended told → told.HoldsAt id stop →
      told.takeStep mode = .ok stepping →
      Slices bounds.reentry id stepping visited machine →
      parkedVisits bounds.reentry id machine = earlier ++ here :: later →
      visited ++ earlier ≠ [] → here.debugger.stopRequested = false → here.Faces method byte →
      (stop.request mode).EndsAt (here.placeIn method) →
      ∃ after, slice bounds id machine = .ok .suspended after := by
  intro claimed
  have tells : (Bounds.reentry {}).Reporting := Reentry.reporting_ofDepth _ _
  obtain ⟨stop, holds⟩ :=
    holdsAt_of_slice tells (by decide : pausing.exec.id ≠ 2) slice_pausing
  cases holdsAt_paused holds
  have reports : stepping.Reports interrupted :=
    (ends_of_ok slice_stepping (tells.runParkedSlice 3 stepping trivial)).1
  have leaves : stepping.LeavesBe 2 interrupted :=
    ⟨rfl, by decide +kernel, reports.attached, reports.debugger.retains⟩
  have three : (parkedVisits (Bounds.reentry {}) 2 interrupted).length = 3 := by decide +kernel
  obtain ⟨first, here, last, all⟩ := List.length_eq_three.mp three
  have faces : ∀ here ∈ (parkedVisits (Bounds.reentry {}) 2 interrupted)[1]?,
      here.debugger.stopRequested = false ∧ here.Faces ⟨⟨0⟩, 0⟩ 0 ∧
        (pausingStop.request .over).EndsAt (here.placeIn ⟨⟨0⟩, 0⟩) := by
    decide +kernel
  rw [all] at faces
  obtain ⟨unasked, faces, ends⟩ := faces here rfl
  obtain ⟨after, stops⟩ := claimed {} 2 pausing paused stepping interrupted here pausingStop .over
    [] [first] [last] ⟨⟨0⟩, 0⟩ 0 (by decide) rfl slice_pausing holds rfl (.start leaves) all nofun
    unasked faces ends
  have finishes : Answers (.finished .void) (slice {} 2 interrupted) := by decide +kernel
  cases stops.symm.trans finishes

end Host

end Jvm
