/-!
# Monitors

A monitor is a reentrant lock owned by one execution at a time. Entering is
refused exactly when another execution holds it.
-/

namespace Jvm

/-- Identifies an execution of a machine. -/
abbrev ExecId := UInt32

/-- A reentrant lock. `count` is zero when it is free. -/
structure Monitor where
  owner : ExecId := 0
  count : UInt32 := 0
  deriving DecidableEq, Inhabited, Repr

namespace Monitor

/-- A monitor that nobody holds. -/
def free : Monitor := {}

/-- Takes the monitor once more, or `none` if another execution holds it. -/
def enter (monitor : Monitor) (exec : ExecId) : Option Monitor :=
  if monitor.count = 0 ∨ monitor.owner = exec then
    some ⟨exec, monitor.count + 1⟩
  else
    none

/-- Releases the monitor once, or `none` if `exec` does not hold it. -/
def exit (monitor : Monitor) (exec : ExecId) : Option Monitor :=
  if monitor.count = 0 ∨ monitor.owner ≠ exec then
    none
  else if monitor.count = 1 then
    some free
  else
    some ⟨monitor.owner, monitor.count - 1⟩

/-- Whether `exec` holds the monitor. -/
def heldBy (monitor : Monitor) (exec : ExecId) : Bool :=
  monitor.count ≠ 0 && monitor.owner == exec

theorem enter_eq_none_iff (monitor : Monitor) (exec : ExecId) :
    monitor.enter exec = none ↔ monitor.count ≠ 0 ∧ monitor.owner ≠ exec := by
  simp [enter]

theorem exit_isSome_iff (monitor : Monitor) (exec : ExecId) :
    (monitor.exit exec).isSome ↔ monitor.heldBy exec = true := by
  by_cases count : monitor.count = 0 <;> by_cases owner : monitor.owner = exec <;>
    simp [exit, heldBy, count, owner]
  split <;> rfl

end Monitor

end Jvm
