import Jvm.Machine.Step

/-!
# Slices

A slice runs the current execution for a number of instructions at most. It ends
early when the bottom frame returns, when the execution yields, sleeps or waits
for a lock, when the debugger stops it, or with an error.
-/

namespace Jvm

/-- How a slice ends, if not with an error. -/
inductive SliceOutcome where
  | finished (value : Value)
  | yielded
  | blocked
  | suspended
  /-- Nothing is to run before an instant. -/
  | sleeping (wakeAt : Instant)
  deriving DecidableEq

namespace Machine

/-- Counts an instruction. -/
@[inline] def countStep (machine : Machine) : Machine :=
  { machine with executed := machine.executed + 1 }

/-- Keeps the object of a result until the next instruction starts. -/
def protectResult (machine : Machine) (value : Value) : Machine :=
  match value with
  | .ref (some ref) => machine.modifyHeap fun heap => heap.protect ref
  | _ => machine

end Machine

namespace Host

/-- What follows an instruction: the outcome of the slice, or `none` to go on. -/
def afterStep (ended : Except Throw Step) : Host (Option SliceOutcome) := do
  match ended with
  | .ok .blocked => pure (some .blocked)
  | .ok .next => do
    modify Machine.countStep
    if (← get).yieldRequested then do
      modify fun machine => { machine with yieldRequested := false }
      match (← get).exec.wakeAt with
      | some wakeAt => pure (some (.sleeping wakeAt))
      | none => pure (some .yielded)
    else pure none
  | .ok (.returned value) => do
    modify fun machine => machine.countStep.protectResult value
    pure (some (.finished value))
  | .ok .suspended => do
    modify Machine.countStep
    pure (some .suspended)
  | .error (.exception ref) => do
    modify Machine.countStep
    if ← modifyGet fun machine => machine.stopOnThrow ref then pure (some .suspended)
    else do
      unwind ref
      pure none
  | .error (.fatal error) => do
    modify fun machine => machine.countStep.abandonExecution
    throw error

/-- Runs one instruction, or goes on throwing an object that was kept back. -/
def runStep (reentry : Reentry) : Host (Option SliceOutcome) := do
  modify fun machine => machine.modifyHeap Heap.clearPending
  match (← get).exec.pendingException with
  | some ref => do
    modify fun machine => machine.modifyExec fun exec => { exec with pendingException := none }
    unwind ref
    pure none
  | none => do
    let ended ← attempt (Guest.step reentry)
    afterStep ended

/-- Runs at most `budget` instructions. -/
def runSteps (reentry : Reentry) : Nat → Host SliceOutcome
  | 0 => pure .yielded
  | budget + 1 => do
    match ← runStep reentry with
    | some outcome => pure outcome
    | none => runSteps reentry budget

/-- Runs the current execution for a slice. -/
def runSlice (reentry : Reentry) (budget : Nat) : Host SliceOutcome := do
  let machine ← get
  if machine.exec.isIdle then fault (.nothingToRun machine.exec.id)
  else
    match machine.exec.wakeAt.filter fun wakeAt => machine.now < wakeAt with
    | some wakeAt => pure (.sleeping wakeAt)
    | none => do
      modify fun machine =>
        { machine.modifyExec fun exec => { exec with wakeAt := none } with
          yieldRequested := false }
      runSteps reentry budget

/-- Brings a parked execution back for a slice. The current one waits for it; the
parked one is gone once it has ended. -/
def runParkedSlice (reentry : Reentry) (id : ExecId) : Host SliceOutcome := fun machine =>
  match machine.takeCompleted id with
  | some (value, machine) => .ok (.finished value) machine
  | none =>
    match machine.unpark id with
    | none => .error (.invalidState (.noParkedExecution id)) machine
    | some (exec, machine) =>
      let current := machine.exec.id
      let machine := machine.switchTo exec
      let ended :=
        if machine.terminated then .error .terminated machine.abandonExecution
        else runSlice reentry machine.config.sliceBudget machine
      match ended with
      | .error error machine => .error error (machine.switchBack current).2
      | .ok outcome machine =>
        let (exec, machine) := machine.switchBack current
        match outcome with
        | .finished value => .ok (.finished value) machine
        | outcome => .ok outcome (machine.park exec)

end Host

end Jvm

/-!
## Scheduling

A call from the host runs slices of its execution until that ends. Threads that
guest code started get a slice after each of them. When nothing can run, the
machine sleeps until the first of the sleeping executions wakes, or reports that
all wait for locks that nobody will release.
-/

namespace Jvm

/-- What a round of slices of the guest threads found. -/
structure GuestRound where
  /-- Whether a thread ended. -/
  ended : Bool := false
  /-- When the first sleeping thread wakes. -/
  earliestWake : Option Instant := none
  deriving DecidableEq

/-- The earlier of two instants that may be missing. -/
def earliest (left right : Option Instant) : Option Instant :=
  match left, right with
  | some left, some right => some (min left right)
  | some left, none => some left
  | none, right => right

namespace Machine

/-- Lets time pass until an instant. -/
def sleepUntil (machine : Machine) (wakeAt : Instant) : Machine :=
  { machine with slept := machine.slept + (wakeAt - machine.now) }

/-- The report of a thread that ended with an exception that nobody caught. -/
def threadDeath (id : ExecId) (className : String) (message : Option String)
    (trace : List String) : String :=
  s!"Exception in thread \"Thread-{id}\" {className}" ++ message.elim "" (": " ++ ·) ++ "\n" ++
    String.join (trace.map fun frame => "\tat " ++ frame ++ "\n")

/-- Reports how a guest thread ended on the error console. -/
def reportDeath (machine : Machine) (id : ExecId) (error : Error) : Machine :=
  match error with
  | .uncaught className message trace =>
    machine.write 2 (threadDeath id className message trace)
  | _ => machine

/-- Drops a parked execution without running it further. -/
def discardExecution (machine : Machine) (id : ExecId) : Machine :=
  let machine := { machine with completed := machine.completed.filter fun (exec, _) => exec ≠ id }
  match machine.unpark id with
  | none => machine
  | some (exec, machine) =>
    let current := machine.exec.id
    ((machine.switchTo exec).abandonExecution.switchBack current).2

/-- Forgets a guest thread. -/
def forgetThread (machine : Machine) (id : ExecId) : Machine :=
  { machine with guestThreads := machine.guestThreads.filter (· ≠ id) }

end Machine

namespace Host

/-- Runs a slice and gives how it ended, be it with an error. -/
def catching {α : Type} (step : Host α) : Host (Except Error α) := fun machine =>
  match step machine with
  | .ok value machine => .ok (.ok value) machine
  | .error error machine => .ok (.error error) machine

/-- Gives a guest thread a slice and adds what it found to a round. A stopped
thread would wait without end, since nobody is left to let it go on. -/
def runGuestSlice (reentry : Reentry) (round : GuestRound) (id : ExecId) : Host GuestRound := do
  match ← catching (runParkedSlice reentry id) with
  | .ok (.finished _) => do
    modify fun machine => machine.forgetThread id
    pure { round with ended := true }
  | .ok (.sleeping wakeAt) =>
    pure { round with earliestWake := earliest round.earliestWake (some wakeAt) }
  | .ok .suspended => throw .exhausted
  | .ok _ => pure round
  | .error error => do
    modify fun machine => (machine.reportDeath id error).forgetThread id
    pure { round with ended := true }

/-- Gives every guest thread a slice. -/
def runGuestSlices (reentry : Reentry) : Host GuestRound := do
  (← get).guestThreads.foldlM (runGuestSlice reentry) {}

/-- Gives up the running execution with an error. -/
def abandon {α : Type} (error : Error) : Host α := do
  modify Machine.abandonExecution
  throw error

/-- What a call does between two slices of its own: it lets the guest threads run
and waits for whoever wakes first. `wakeAt` is when it wakes itself. -/
def betweenSlices (reentry : Reentry) (before : Nat) (blocked : Bool) (wakeAt : Option Instant) :
    Host Unit := do
  if (← get).guestThreads.isEmpty then do
    if blocked then abandon (.invalidState .monitorHeldElsewhere)
    if let some wakeAt := wakeAt then modify fun machine => machine.sleepUntil wakeAt
  else do
    let round ← runGuestSlices reentry
    if (← get).executed = before && !round.ended then
      match earliest wakeAt round.earliestWake with
      | some wakeAt => modify fun machine => machine.sleepUntil wakeAt
      | none => if blocked then abandon (.invalidState .allBlocked)

/-- Runs the current execution until its bottom frame returns, for at most `fuel`
slices. -/
def runToCompletion (reentry : Reentry) : Nat → Host Value
  | 0 => throw .exhausted
  | fuel + 1 => do
    if (← get).terminated then abandon .terminated
    else do
      let before := (← get).executed
      match ← runSlice reentry (← get).config.sliceBudget with
      | .finished value => pure value
      | .suspended => throw .exhausted
      | .yielded => do
        betweenSlices reentry before false none
        runToCompletion reentry fuel
      | .blocked => do
        betweenSlices reentry before true none
        runToCompletion reentry fuel
      | .sleeping wakeAt => do
        betweenSlices reentry before false (some wakeAt)
        runToCompletion reentry fuel

/-- Gives up the guest threads that are left: each waits for a lock. -/
def abandonThreads : Host Unit := do
  let stuck := (← get).guestThreads
  modify fun machine =>
    stuck.foldl Machine.discardExecution { machine with guestThreads := [] }
  fault (.threadsBlocked stuck)

/-- Runs the guest threads until all have ended, for at most `fuel` rounds. -/
def joinThreads (reentry : Reentry) : Nat → Host Unit
  | 0 => throw .exhausted
  | fuel + 1 => do
    if (← get).guestThreads.isEmpty then do
      if (← get).terminated then throw .terminated
    else do
      let before := (← get).executed
      let round ← runGuestSlices reentry
      if (← get).executed = before && !round.ended then
        match round.earliestWake with
        | some wakeAt => modify fun machine => machine.sleepUntil wakeAt
        | none => abandonThreads
      joinThreads reentry fuel

end Host

end Jvm
