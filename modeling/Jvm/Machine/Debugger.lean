import Jvm.Error

/-!
# Debugger

The state that a controlling host shares with the machine: what is stopped and
why, and what to stop at next. One execution is stopped at a time; a second stop
is dropped.
-/

namespace Jvm

/-- What a step passes over. -/
inductive StepMode where
  /-- Stop at the next line, entering calls. -/
  | into
  /-- Stop at the next line of the same or an outer frame. -/
  | over
  /-- Stop once the current frame has returned. -/
  | out
  deriving DecidableEq, Repr

/-- Why an execution stopped. -/
inductive StopReason where
  | requested
  | breakpoint
  | step
  | exception (className : String) (message : Option String)
  deriving DecidableEq, Repr

/-- Where and why an execution stopped. `depth` counts its frames. -/
structure StopEvent where
  exec : ExecId
  reason : StopReason
  method : MethodId
  /-- Class, name and descriptor of the method. -/
  location : String
  line : Option UInt32
  pc : UInt32
  depth : Nat
  deriving DecidableEq

/-- A place that a step looks at. -/
structure StepPlace where
  method : MethodId
  line : Option UInt32
  pc : UInt32
  depth : Nat
  deriving DecidableEq

/-- An outstanding step of one execution, and where it started. -/
structure StepRequest where
  mode : StepMode
  exec : ExecId
  start : StepPlace
  deriving DecidableEq

namespace StepRequest

/-- Whether a place is on the line the step started on. Without lines, pcs are
compared. -/
def sameLine (request : StepRequest) (place : StepPlace) : Bool :=
  place.method == request.start.method &&
    match place.line, request.start.line with
    | some line, some start => line == start
    | _, _ => place.pc == request.start.pc

/-- Whether the step ends before the instruction at a place. -/
def reached (request : StepRequest) (place : StepPlace) : Bool :=
  match request.mode with
  | .into => place.depth != request.start.depth || !request.sameLine place
  | .over =>
    place.depth < request.start.depth ||
      (place.depth == request.start.depth && !request.sameLine place)
  | .out => place.depth < request.start.depth

end StepRequest

/-- What is stopped and what to stop at. -/
structure Debugger where
  stopped : Option StopEvent := none
  stopRequested : Bool := false
  step : Option StepRequest := none
  breakOnException : Bool := false
  /-- Whether every instruction has to ask before it runs. -/
  armed : Bool := false
  deriving DecidableEq, Inhabited

namespace Debugger

/-- Has instructions ask while a stop is requested or a step is outstanding. -/
def rearm (debugger : Debugger) : Debugger :=
  { debugger with armed := debugger.stopRequested || debugger.step.isSome }

def isStopped (debugger : Debugger) : Bool := debugger.stopped.isSome

/-- Stops whatever runs the next instruction. -/
def requestStop (debugger : Debugger) : Debugger := { debugger with stopRequested := true }.rearm

/-- Lets the stopped execution go on; gives whether there was one. -/
def resume (debugger : Debugger) : Bool × Debugger :=
  (debugger.isStopped, { debugger with stopped := none, step := none }.rearm)

/-- Stops when an exception is thrown, or does so no more. -/
def setExceptionBreak (debugger : Debugger) (enabled : Bool) : Debugger :=
  { debugger with breakOnException := enabled }

/-- Lets the stopped execution go on until the step ends. -/
def takeStep (debugger : Debugger) (mode : StepMode) : Except Error Debugger :=
  match debugger.stopped with
  | none => .error (.invalidState .nothingStopped)
  | some stop =>
    let start : StepPlace := ⟨stop.method, stop.line, stop.pc, stop.depth⟩
    .ok { debugger with stopped := none, step := some ⟨mode, stop.exec, start⟩ }.rearm

/-- Decides whether an execution stops before the instruction at a place. -/
def shouldStop (debugger : Debugger) (exec : ExecId) (place : StepPlace) :
    Option StopReason × Debugger :=
  if debugger.isStopped then (none, debugger)
  else if debugger.stopRequested then
    (some .requested, { debugger with stopRequested := false }.rearm)
  else
    match debugger.step with
    | some request =>
      if request.exec = exec ∧ request.reached place then
        (some .step, { debugger with step := none }.rearm)
      else (none, debugger.rearm)
    | none => (none, debugger.rearm)

/-- Records a stop, unless something is stopped already. -/
def report (debugger : Debugger) (event : StopEvent) : Bool × Debugger :=
  if debugger.isStopped then (false, debugger)
  else (true, { debugger with stopped := some event })

end Debugger

end Jvm
