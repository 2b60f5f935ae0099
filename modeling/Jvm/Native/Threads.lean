import Jvm.Machine.Parking
import Jvm.Native.Text

/-!
# Thread natives

A thread object names the execution that runs it by a number in a field; zero
stands for a thread that was not started. Sleeping and yielding end the slice of
the running execution.
-/

namespace Jvm.ThreadNative

open Guest

/-- The execution of a thread object. -/
def executionOf (machine : Machine) (thread : Ref) : ExecId :=
  (machine.heap.fields? thread).elim 0 fun fields => fields.get machine.known.threadExecution

/-- Records the execution of a thread object. -/
def setExecution (thread : Ref) (id : ExecId) : Guest Unit :=
  modify fun machine => machine.modifyHeap fun heap => heap.modifyFields thread fun fields =>
    fields.set machine.known.threadExecution id

/-- Creates an execution for a thread, for whoever drives the running one. -/
def launch (reentry : Reentry) (thread : Ref) : Guest Value := do
  let cls ← classOf thread
  let registry := (← get).registry
  match registry.lookupMethod cls "run" "()V" with
  | none => raise .abstractMethodError (some s!"{registry.displayName cls}.run()V")
  | some run => do
    let id ← ofHost (reentry.prepare run [.ref (some thread)])
    setExecution thread id
    modify fun machine => { machine with
      parked := machine.parked.map fun exec =>
        if exec.id = id then { exec with threadObject := some thread } else exec
      guestThreads := machine.guestThreads ++ [id] }
    pure .void

/-- Starts a thread that was not started before. -/
def begin (reentry : Reentry) (thread : Ref) : Guest Value := do
  if executionOf (← get) thread ≠ 0 then raise .illegalThreadStateException none
  launch reentry thread

/-- Whether the execution of a thread has not ended. -/
def alive (machine : Machine) (thread : Ref) : Bool :=
  let id := executionOf machine thread
  id ≠ 0 && ((machine.execution? id).isSome || machine.completed.any fun (exec, _) => exec == id)

/-- Ends the slice; no further one starts before the time is over. -/
def pause (millis : Int64) : Guest Value := do
  if millis < 0 then raise .illegalArgumentException (some "timeout value is negative")
  else do
    modify fun machine =>
      let wakeAt := machine.now + millis.toNatClampNeg * 1000000
      { machine.modifyExec fun exec => { exec with wakeAt := some wakeAt } with
        yieldRequested := true }
    pure .void

/-- The thread object of the running execution. One that the host started gets
its object on first request; no constructor runs. -/
def current : Guest Value := do
  match (← get).exec.threadObject with
  | some thread => pure (ofRef thread)
  | none => do
    let thread ← newInstance (← get).known.thread
    setExecution thread (← get).exec.id
    modify fun machine => machine.modifyExec fun exec =>
      { exec with threadObject := some thread }
    pure (ofRef thread)

def run (reentry : Reentry) (native : ThreadNative) (arguments : NativeArgs) : Guest Value := do
  match native with
  | .start => begin reentry (← nonNull arguments.receiver "this")
  | .isAlive => do
    let thread ← nonNull arguments.receiver "this"
    pure (ofBool (alive (← get) thread))
  | .sleep => pause (arguments.long 0)
  | .yield => do
    modify fun machine => { machine with yieldRequested := true }
    pure .void
  | .currentThread => current

end Jvm.ThreadNative
