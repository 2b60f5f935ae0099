import Jvm.Machine.Schedule

/-!
# Staging calls

A call from the host puts its arguments on the stack of an idle execution and
pushes the frame of the method, with those of the initializers that its class
still needs on top. A native method runs at once. The calls that natives make
nest inside calls of the host; a bound on the nesting closes the circle.
-/

namespace Jvm

namespace Host

/-- Whether arguments fit a method: the receiver first, then each parameter. -/
def accepts (method : Method) (arguments : List Value) : Bool :=
  let expected := (if method.isStatic then [] else [Kind.reference]) ++ method.params
  expected.length = arguments.length && (expected.zip arguments).all fun (kind, value) =>
    value.fits kind

/-- Starts the running execution over. -/
def resetExec : Host Unit := modify fun machine => machine.modifyExec Execution.reset

/-- How a guest step of staging ends: a thrown object goes to the frames that
were pushed already, and an error resets the execution. -/
def settle {α : Type} (ended : Except Throw α) : Host (Option α) := do
  match ended with
  | .ok value => pure (some value)
  | .error (.exception ref) => do
    unwind ref
    pure none
  | .error (.fatal error) => do
    resetExec
    throw error

/-- Initializes a class on the idle running execution, to the end. -/
def initializeClass (complete : Host Value) (id : ClassId) : Host Unit := do
  let ended ← attempt (Guest.ensureInitialized id 0)
  let pushed ← settle ended
  if pushed.getD true then
    let _ ← complete

/-- Pushes host arguments. -/
def pushArguments (arguments : List Value) : Host Unit :=
  modify fun machine => machine.modifyStack fun stack => arguments.foldl Stack.pushValue stack

/-- Stages a native: its class is initialized, and it runs. -/
def stageNative (reentry : Reentry) (complete : Host Value) (id : MethodId)
    (arguments : List Value) : Host (Option Value) := do
  initializeClass complete id.owner
  pushArguments arguments
  let ended ← attempt (Guest.callNative reentry id)
  let value ← settle ended
  if value.isSome then resetExec
  pure value

/-- Pushes the frame of a method with code and those of its class's initializers. -/
def stageFrame (reentry : Reentry) (id : MethodId) : Guest Unit := do
  match ← Guest.invoke reentry id 0 0 with
  | .blocked => Guest.fault (.monitorOfHeld ((← get).methodLabel id))
  | _ => do
    let _ ← Guest.ensureInitialized id.owner 0

/-- Stages a call; the result, if the execution need not run any more. -/
def stageCall (reentry : Reentry) (complete : Host Value) (id : MethodId)
    (arguments : List Value) : Host (Option Value) := do
  if ((← get).method id).isNative then stageNative reentry complete id arguments
  else do
    pushArguments arguments
    let ended ← attempt (stageFrame reentry id)
    let _ ← settle ended
    pure none

/-- Pins the objects among some values. -/
def pinAll (values : List Value) (machine : Machine) : Machine :=
  machine.modifyHeap fun heap => (values.filterMap (·.ref?.join)).foldl Heap.pin heap

/-- Undoes `pinAll`. -/
def unpinAll (values : List Value) (machine : Machine) : Machine :=
  machine.modifyHeap fun heap => (values.filterMap (·.ref?.join)).foldl Heap.unpin heap

/-- Stages a call on the running execution, which has to be idle. The arguments
are kept meanwhile. -/
def enterMethod (reentry : Reentry) (complete : Host Value) (id : MethodId)
    (arguments : List Value) : Host (Option Value) := do
  let machine ← get
  if !machine.exec.isIdle then fault (.alreadyRunning machine.exec.id)
  else if !accepts (machine.method id) arguments then
    fault (.badArguments arguments (machine.methodLabel id))
  else do
    resetExec
    modify (pinAll arguments)
    let result ← catching (stageCall reentry complete id arguments)
    modify (unpinAll arguments)
    match result with
    | .ok value => pure value
    | .error error => throw error

end Host

namespace Reentry

/-- Calls that nest no deeper than `depth`, each of at most `fuel` slices. -/
def ofDepth (fuel : Nat) : Nat → Reentry
  | 0 => { enter := fun _ _ => throw .exhausted, complete := throw .exhausted }
  | depth + 1 =>
    { enter := fun id arguments machine =>
        let inner := ofDepth fuel depth
        Host.enterMethod inner (Host.runToCompletion inner fuel) id arguments machine
      complete := fun machine => Host.runToCompletion (ofDepth fuel depth) fuel machine }

end Reentry

end Jvm
