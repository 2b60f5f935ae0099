import Jvm.Machine.Schedule
import Jvm.Proofs.Machine.Staging
import Jvm.Proofs.Veiling.Steps

/-!
# Instructions beside other budgets

How many instructions a slice may run is a setting that no instruction reads. Without a
debugger, and if no native starts a thread or ends the slice, an instruction does the same
whatever the budget is, and the execution goes on, ends or waits for a lock.
-/

namespace Jvm

open Machine

variable {ε σ α β : Type}

/-! ## Steps that commute with a change -/

/-- The end of a step, at a state that is changed. -/
def onState (change : σ → σ) : EStateM.Result ε σ α → EStateM.Result ε σ α
  | .ok value after => .ok value (change after)
  | .error raised after => .error raised (change after)

/-- Whether a step does to a state that was changed what it does to the state itself. -/
def Commutes (change : σ → σ) (step : EStateM ε σ α) (state : σ) : Prop :=
  step (change state) = onState change (step state)

namespace Commutes

variable {change : σ → σ} {state : σ}

protected theorem pure (value : α) : Commutes change (pure value : EStateM ε σ α) state := rfl

protected theorem throw (raised : ε) : Commutes change (throw raised : EStateM ε σ α) state := rfl

protected theorem modify {update : σ → σ} (same : update (change state) = change (update state)) :
    Commutes change (modify update : EStateM ε σ PUnit) state :=
  congrArg (EStateM.Result.ok PUnit.unit) same

theorem get_bind {next : σ → EStateM ε σ α} (blind : next (change state) = next state)
    (rest : Commutes change (next state) state) : Commutes change (get >>= next) state := by
  change next (change state) (change state) = onState change (next state state)
  rw [blind]
  exact rest

protected theorem bind {step : EStateM ε σ β} {next : β → EStateM ε σ α}
    (first : Commutes change step state)
    (rest : ∀ value after, step state = .ok value after → Commutes change (next value) after) :
    Commutes change (step >>= next) state := by
  simp only [Commutes, bind, EStateM.bind] at first ⊢
  rw [first]
  cases ran : step state with
  | ok value after => exact rest value after ran
  | error raised after => rfl

end Commutes

/-! ## Steady executions -/

/-- Whether a native neither starts a thread nor ends the slice. -/
def Native.isSteady : Native → Bool
  | .builtin (.thread .start) | .builtin (.thread .sleep) | .builtin (.thread .yield) => false
  | _ => true

namespace Machine

/-- A machine with another budget for slices. -/
def withBudget (budget : Nat) (machine : Machine) : Machine :=
  { machine with config := { machine.config with sliceBudget := budget } }

/-- Whether nothing but its instructions decides how an execution goes on. -/
structure Steady (machine : Machine) : Prop where
  detached : machine.debuggerAttached = false
  calm : machine.yieldRequested = false
  awake : machine.exec.wakeAt = none

/-- Whether a machine is steady, with the settings and the threads of an earlier one. -/
structure Persists (before after : Machine) : Prop where
  config : after.config = before.config
  guestThreads : after.guestThreads = before.guestThreads
  steady : after.Steady

theorem Steady.refl {machine : Machine} (steady : machine.Steady) : machine.Persists machine :=
  ⟨rfl, rfl, steady⟩

theorem Persists.trans {first second third : Machine} (left : first.Persists second)
    (right : second.Persists third) : first.Persists third :=
  ⟨right.config.trans left.config, right.guestThreads.trans left.guestThreads, right.steady⟩

/-- Another budget is seen through a veil that hides it. -/
theorem veil_withBudget {machine after : Machine} (same : after.veil (.of machine True) = after)
    (budget : Nat) :
    after.veil { Veil.of machine True with
      config := { machine.config with sliceBudget := budget } } = after.withBudget budget := by
  have shown : after.veil { Veil.of machine True with
      config := { machine.config with sliceBudget := budget } } =
        (after.veil (.of machine True)).withBudget budget := rfl
  rw [shown, same]

/-- A change that sees nothing of what is veiled is the same beside another budget. -/
theorem withBudget_of_veil {change : Machine → Machine}
    (same : ∀ (veil : Veil) (machine : Machine),
      change (machine.veil veil) = (change machine).veil veil) (budget : Nat) (machine : Machine) :
    change (machine.withBudget budget) = (change machine).withBudget budget := by
  have hidden : (change machine).veil (.of machine True) = change machine := by
    rw [← same, veil_of]
  rw [← veil_withBudget hidden, ← same, veil_withBudget (veil_of machine True)]

/-- Whether a step does the same beside another budget, and leaves the machine steady if it
returns. -/
def Steadily (step : EStateM ε Machine α) (machine : Machine) (returned : α → Machine → Prop) :
    Prop :=
  (∀ budget, Commutes (withBudget budget) step machine) ∧
    Ends step machine (fun value after => machine.Persists after ∧ returned value after)
      fun _ _ => True

namespace Steadily

variable {machine : Machine} {returned : α → Machine → Prop}

protected theorem pure (steady : machine.Steady) {value : α} (holds : returned value machine) :
    Steadily (pure value : EStateM ε Machine α) machine returned :=
  ⟨fun _ => .pure value, ends_pure.mpr ⟨steady.refl, holds⟩⟩

protected theorem bind {step : EStateM ε Machine β} {next : β → EStateM ε Machine α}
    {between : β → Machine → Prop} (first : Steadily step machine between)
    (rest : ∀ value after, machine.Persists after → between value after →
      Steadily (next value) after returned) : Steadily (step >>= next) machine returned := by
  refine ⟨fun budget => (first.1 budget).bind fun value after ran => ?_, ?_⟩
  · have reached := ends_of_ok ran first.2
    exact (rest value after reached.1 reached.2).1 budget
  · rw [ends_bind]
    refine Ends.mono first.2 (fun value after reached => ?_) fun _ _ _ => trivial
    refine Ends.mono (rest value after reached.1 reached.2).2 ?_ fun _ _ _ => trivial
    exact fun _ _ ended => ⟨reached.1.trans ended.1, ended.2⟩

theorem modify_bind {change : Machine → Machine} {next : PUnit → EStateM ε Machine α}
    (same : ∀ budget, change (machine.withBudget budget) = (change machine).withBudget budget)
    (continues : machine.Persists (change machine))
    (rest : Steadily (next ⟨⟩) (change machine) returned) :
    Steadily (modify change >>= next) machine returned := by
  have first : Steadily (modify change : EStateM ε Machine PUnit) machine
      fun _ after => after = change machine :=
    ⟨fun budget => .modify (same budget), ends_modify.mpr ⟨continues, rfl⟩⟩
  refine first.bind fun _ after _ reached => ?_
  subst reached
  exact rest

theorem get_bind {next : Machine → EStateM ε Machine α}
    (blind : ∀ budget, next (machine.withBudget budget) = next machine)
    (rest : Steadily (next machine) machine returned) :
    Steadily (get >>= next) machine returned :=
  ⟨fun budget => .get_bind (blind budget) (rest.1 budget), ends_bind.mpr (ends_get.mpr rest.2)⟩

/-- What is blind to the settings does the same beside another budget. -/
theorem of_blind {step : EStateM ε Machine α} (steady : machine.Steady)
    (blind : ∀ config, BlindAt { Veil.of machine True with config } step machine)
    (ends : Ends step machine returned fun _ _ => True) : Steadily step machine returned := by
  have hidden := BlindAt.ends_hidden (veil_of machine True) (blind machine.config)
  refine ⟨fun budget => ?_, ?_⟩
  · have other := blind { machine.config with sliceBudget := budget }
    simp only [Commutes, Ends, BlindAt, veil_withBudget (veil_of machine True)] at hidden other ⊢
    cases ran : step machine with
    | ok value after =>
        simp only [ran] at hidden other
        rw [other.2, veil_withBudget hidden.2]
        rfl
    | error raised after =>
        simp only [ran] at hidden other
        rw [other.2, veil_withBudget hidden.2]
        rfl
  · refine Ends.mono (Ends.and hidden ends) (fun value after ended => ?_) fun _ _ _ => trivial
    obtain ⟨⟨covers, same⟩, holds⟩ := ended
    obtain ⟨calm, awake⟩ := covers.2.2.2.2.2.1 trivial
    refine ⟨⟨?_, ?_, ?_, calm, awake⟩, holds⟩
    · rw [← same]
      rfl
    · rw [← same]
      rfl
    · rw [← same]
      exact steady.detached

end Steadily

end Machine

namespace Host

open Guest

/-! ## Instructions -/

theorem blindAt_attempt {veil : Veil} {step : Guest α} {machine : Machine}
    (blind : BlindAt veil step machine) : BlindAt veil (attempt step) machine := by
  simp only [BlindAt, Ends] at blind
  cases ran : step machine with
  | ok value after =>
      rw [ran] at blind
      exact Ends.of_ok (by rw [attempt, ran]) ⟨blind.1, by rw [attempt, blind.2]⟩
  | error raised after =>
      rw [ran] at blind
      exact Ends.of_ok (by rw [attempt, ran]) ⟨blind.1, by rw [attempt, blind.2]⟩

/-- How a steady execution goes on after an instruction. -/
def Resumes (outcome : Option SliceOutcome) (after : Machine) : Prop :=
  match outcome with
  | none => after.exec.isIdle = false
  | some .yielded | some (.sleeping _) => False
  | some .blocked | some .suspended | some (.finished _) => True

/-- What is caught is caught in a frame. -/
theorem ends_unwind_running (ref : Ref) (machine : Machine) :
    Ends (unwind ref) machine (fun _ after => after.exec.isIdle = false) fun _ _ => True := by
  have runs := Guest.ends_unwind_running ref machine
  simp only [Ends, unwind, ofGuest] at runs ⊢
  cases ran : Guest.unwind ref machine with
  | ok value after => simpa only [ran] using runs
  | error thrown after => cases thrown <;> trivial

variable {machine : Machine} (steady : machine.Steady)

include steady

theorem covers_of_steady : (Veil.of machine True).Covers machine :=
  covers_of fun _ => ⟨steady.calm, steady.awake⟩

/-- An exception finds its handler beside any budget. -/
theorem steadily_unwind (ref : Ref) :
    Steadily (do
      unwind ref
      pure none : Host (Option SliceOutcome)) machine Resumes := by
  refine (Steadily.of_blind steady (fun config => .of_blind (blind_ofGuest (blind_unwind ?_ ref)) ?_)
    (ends_unwind_running ref machine)).bind fun _ after continues running => .pure continues.steady running
  · exact id
  · exact covers_of_steady steady

theorem steadily_afterStep {ended : Except Throw Step}
    (running : ended = .ok .next → machine.exec.isIdle = false) :
    Steadily (afterStep ended) machine Resumes := by
  have counted : machine.Persists machine.countStep :=
    ⟨rfl, rfl, steady.detached, steady.calm, steady.awake⟩
  cases ended with
  | ok step =>
      cases step with
      | blocked => exact .pure steady trivial
      | next =>
          refine Steadily.modify_bind (fun _ => rfl) counted (.get_bind (fun _ => rfl) ?_)
          rw [if_neg (by rw [counted.steady.calm]; exact Bool.false_ne_true)]
          exact .pure counted.steady (running rfl)
      | returned value =>
          have kept : machine.Persists (machine.countStep.protectResult value) := by
            rw [protectResult.eq_def]
            split
            · exact ⟨rfl, rfl, steady.detached, steady.calm, steady.awake⟩
            · exact counted
          refine Steadily.modify_bind (fun _ => ?_) kept (.pure kept.steady trivial)
          rw [protectResult.eq_def, protectResult.eq_def]
          split <;> rfl
      | suspended =>
          exact Steadily.modify_bind (fun _ => rfl) counted (.pure counted.steady trivial)
  | error thrown =>
      cases thrown with
      | exception ref =>
          have passes : ∀ other : Machine, other.debuggerAttached = false →
              other.stopOnThrow ref = (false, other) := by
            intro other detached
            simp only [stopOnThrow, detached, Bool.false_and, Bool.false_eq_true, if_false]
          have unstopped : Steadily (modifyGet fun machine => machine.stopOnThrow ref : Host Bool)
              machine.countStep fun stopped after => stopped = false ∧ after = machine.countStep := by
            have goes : ∀ other : Machine, other.debuggerAttached = false →
                (modifyGet fun machine => machine.stopOnThrow ref : Host Bool) other =
                  .ok false other := by
              intro other detached
              rw [run_modifyGet, passes other detached]
            refine ⟨fun budget => ?_, Ends.of_ok (goes _ steady.detached) ?_⟩
            · exact (goes (machine.countStep.withBudget budget) steady.detached).trans
                (congrArg (onState (withBudget budget)) (goes machine.countStep steady.detached)).symm
            · exact ⟨counted.steady.refl, rfl, rfl⟩
          refine Steadily.modify_bind (fun _ => rfl) counted (unstopped.bind ?_)
          rintro - - continues ⟨rfl, rfl⟩
          exact steadily_unwind continues.steady ref
      | fatal error =>
          refine ⟨fun budget => .bind (.modify ?_) fun _ _ _ => .throw error, ?_⟩
          · exact withBudget_of_veil (fun veil machine => machine.abandonExecution_veil) budget
              machine.countStep
          · rw [afterStep, ends_bind, ends_modify]
            exact ends_throw.mpr trivial

/-- An instruction of a steady execution does the same beside any budget. -/
theorem steadily_runStep {reentry : Reentry} (refuses : reentry.Refuses)
    (calls : machine.CallsOnly (·.isSteady)) : Steadily (runStep reentry) machine Resumes := by
  have cleared : machine.Persists (machine.modifyHeap Heap.clearPending) :=
    ⟨rfl, rfl, steady.detached, steady.calm, steady.awake⟩
  refine Steadily.modify_bind (fun _ => rfl) cleared (.get_bind (fun _ => rfl) ?_)
  rw [show (machine.modifyHeap Heap.clearPending).exec = machine.exec from rfl]
  cases pending : machine.exec.pendingException with
  | some ref =>
      have taken : (machine.modifyHeap Heap.clearPending).Persists
          ((machine.modifyHeap Heap.clearPending).modifyExec fun exec =>
            { exec with pendingException := none }) :=
        ⟨rfl, rfl, steady.detached, steady.calm, steady.awake⟩
      exact Steadily.modify_bind (fun _ => rfl) taken (steadily_unwind taken.steady ref)
  | none =>
      have found := calls pending
      generalize machine.modifyHeap Heap.clearPending = before at cleared found ⊢
      have calm := cleared.steady
      have covers : ∀ config, Veil.Covers { Veil.of before True with config } before :=
        fun _ => covers_of_steady calm
      have admits : ∀ config,
          Finds ({ Veil.of before True with config } : Veil).inFrame.Admits calledNext before := by
        intro config
        refine Ends.mono found (fun called _ steadies own same => ?_) fun _ _ _ => trivial
        have steady := steadies own same
        match own with
        | .host _ => exact trivial
        | .builtin (.thread native) => cases native <;> trivial
        | .builtin (.system native) => cases native <;> trivial
        | .builtin (.object _) | .builtin (.string _) | .builtin (.cls _) | .builtin (.math _)
        | .builtin (.float _) | .builtin (.double _) | .builtin (.printStream _) => trivial
      have steps : Steadily (attempt (step reentry)) before fun ended after =>
          ended = .ok .next → after.exec.isIdle = false := by
        refine .of_blind calm (fun config => blindAt_attempt ?_) ?_
        · exact blindAt_step (covers config) calm.detached calm.detached rfl rfl refuses id rfl
            (admits config)
        · have runs := ends_step_running (covers before.config) calm.detached calm.detached rfl rfl
            refuses (admits before.config)
          rw [ends_attempt]
          refine Ends.mono runs (fun ended after running same => ?_) fun _ _ _ same => nomatch same
          exact running fun value returned => by cases same.symm.trans (congrArg _ returned)
      exact steps.bind fun ended after continues running =>
        steadily_afterStep continues.steady running

end Host

end Jvm
