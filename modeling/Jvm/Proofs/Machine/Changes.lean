import Mathlib.Logic.Relation
import Jvm.Proofs.Effects
import Jvm.Proofs.Heap.Collection
import Jvm.Proofs.Heap.Shapes
import Jvm.Proofs.Machine.Closed
import Jvm.Proofs.Machine.Denoting

/-!
# What operations change

Whatever an operation of a machine does to classes, objects and canonical strings is put
together from a few kinds of changes: classes are linked behind those that are there, or
go on in what programs change; a constant is replaced by what it denotes; objects are
allocated, written and collected; a string becomes the canonical one of its text. What
each kind of change keeps is proved here once, and with it what all of them keep.
-/

namespace Jvm

/-! ## Classes that keep their constants -/

/-- Whether two tables have the same classes under the same names, with the same constants,
but for what else programs change. -/
structure ClassTable.Alike (before after : ClassTable) : Prop extends before.Resembles after where
  bounded : after.size = before.size
  found : ∀ name, after.find? name = before.find? name
  pools : ∀ id, (after.get id).pool = (before.get id).pool

namespace ClassTable.Alike

variable {first second third : ClassTable}

theorem refl (table : ClassTable) : table.Alike table :=
  ⟨.refl table, rfl, fun _ => rfl, fun _ => rfl⟩

theorem trans (left : first.Alike second) (right : second.Alike third) : first.Alike third where
  toResembles := left.toResembles.trans right.toResembles
  bounded := right.bounded.trans left.bounded
  found name := (right.found name).trans (left.found name)
  pools id := (right.pools id).trans (left.pools id)

theorem modify (table : ClassTable) (id : ClassId) {change : Class → Class}
    (same : (table.get id).Resembles (change (table.get id)))
    (pools : ∀ cls : Class, (change cls).pool = cls.pool) : table.Alike (table.modify id change) where
  toResembles := .modify table id same
  bounded := size_modify ..
  found _ := rfl
  pools other := view_modify table id other change Class.pool pools

theorem map (table : ClassTable) {change : Class → Class}
    (same : ∀ cls : Class, cls.Resembles (change cls))
    (pools : ∀ cls : Class, (change cls).pool = cls.pool) :
    table.Alike { table with classes := table.classes.map change } where
  toResembles := .map table same
  bounded := Array.size_map
  found _ := rfl
  pools id := by
    simp only [get, Array.getD_eq_getD_getElem?, Array.getElem?_map]
    cases table.classes[id.index]? with
    | none => rfl
    | some cls => exact pools cls

/-- The state that a class is in is not among its constants. -/
theorem finishInitialization (table : ClassTable) (id : ClassId) (succeeded : Bool) :
    table.Alike (table.finishInitialization id succeeded) := by
  apply finishInitialization_induct (motive := table.Alike) (.refl table)
  intro middle other alike
  exact alike.trans (modify middle other ⟨rfl, rfl, rfl, rfl, rfl, rfl, rfl, rfl, rfl,
    fun _ found => found⟩ fun _ => rfl)

theorem closed (alike : first.Alike second) (closed : first.Closed) : second.Closed := by
  have has : ∀ id, second.Has id → first.Has id := fun _ known =>
    Nat.lt_of_lt_of_eq known alike.bounded
  refine ⟨fun id known => ?_, fun id known => ?_, fun name id found => ?_⟩
  · exact (alike.classes id (has id known)).id.trans (closed.ids id (has id known))
  · have same := alike.classes id (has id known)
    have shape : (first.get id).SameShape (second.get id) :=
      ⟨same.id, same.superclass, same.interfaces, same.array, same.methods⟩
    refine (shape.idsIn (closed.classes id (has id known)) fun index => ?_).grow alike.growsTo
    rw [alike.pools]
    exact (closed.classes id (has id known)).pool index
  · exact alike.has (closed.names name id (alike.found name ▸ found))

end ClassTable.Alike

/-- Whether an execution is in the frame that it was in. -/
structure Execution.Remains (before after : Execution) : Prop where
  id : after.id = before.id
  method : after.method = before.method
  startSp : after.startSp = before.startSp

namespace Machine

/-- What a constant of a class denotes in a machine. -/
def Denotes (machine : Machine) (owner : ClassId) (symbolic resolved : Constant) : Prop :=
  machine.registry.toClassTable.Denotes (machine.interned[·]?) owner symbolic resolved

/-- Whether the classes and canonical strings of a machine are still there later, and each
constant is what it was or what that denotes. -/
def Caches (before after : Machine) : Prop :=
  ClassTable.Caches (before.interned[·]?) (after.interned[·]?) before.registry.toClassTable
    after.registry.toClassTable

/-- Puts a constant into the pool of a class. -/
def setConstant (machine : Machine) (owner : ClassId) (index : UInt16) (constant : Constant) :
    Machine :=
  machine.modifyClass owner fun cls => { cls with pool := cls.pool.set index constant }

/-- Whether the same executions run and wait, the running one in the same frame. -/
structure SameFrames (before after : Machine) : Prop where
  exec : before.exec.Remains after.exec
  parked : after.parked = before.parked

/-- What changes may touch besides classes, objects and canonical strings: frames, and some
locks. -/
structure Scope where
  frames : Prop
  locks : Lock → Prop

/-- Where everything may be touched. -/
def Scope.all : Scope := ⟨True, fun _ => True⟩

/-- What may be done at once to classes, objects and canonical strings, and in a scope. -/
inductive Change (scope : Scope) (before : Machine) : Machine → Prop
  /-- Operands, consoles, settings and whatever else there is. -/
  | aside {after : Machine} (frames : before.SameFrames after)
      (registry : after.registry = before.registry)
      (heap : after.heap = before.heap) (interned : after.interned = before.interned) :
      Change scope before after
  /-- Frames come and go, and executions. -/
  | frames {after : Machine} (allowed : scope.frames)
      (registry : after.registry = before.registry)
      (heap : after.heap = before.heap) (interned : after.interned = before.interned) :
      Change scope before after
  /-- Classes are linked behind those that are there. -/
  | link {registry : Registry} (prefixes : before.registry.Prefixes registry.toClassTable)
      (closes : before.registry.toClassTable.Closed → registry.toClassTable.Closed) :
      Change scope before { before with registry }
  /-- Classes go on in what programs change. -/
  | classes {registry : Registry}
      (alike : before.registry.toClassTable.Alike registry.toClassTable)
      (monitors : ∀ id, (registry.get id).monitor = (before.cls id).monitor) :
      Change scope before { before with registry }
  /-- A constant is replaced by what it denotes. -/
  | resolve {owner : ClassId} {index : UInt16} {resolved : Constant}
      (denotes : before.Denotes owner ((before.cls owner).pool.slot index) resolved) :
      Change scope before (before.setConstant owner index resolved)
  /-- Objects are written, and what the heap notes besides. -/
  | write {heap : Heap} (writes : before.heap.Writes heap) :
      Change scope before { before with heap }
  /-- An object is allocated. -/
  | insert {object : Object} (new : object.IsNew) :
      Change scope before { before with heap := (before.heap.insert object).2 }
  /-- Garbage is collected. -/
  | collect : Change scope before before.collectGarbage.2
  /-- A string becomes the canonical one of its text. -/
  | intern {text : String} (ref : Ref) (fresh : before.interned[text]? = none) :
      Change scope before (before.intern text ref)
  /-- The running execution takes a monitor of the scope, or releases it. -/
  | lock {lock : Lock} (allowed : scope.locks lock) (monitor : Monitor) {held : Monitor}
      (found : before.monitor? lock = some held)
      (turned : held.enter before.exec.id = some monitor ∨
        held.exit before.exec.id = some monitor) :
      Change scope before (before.setMonitor monitor lock)
  /-- Monitors are freed. -/
  | release (allowed : ∀ lock, scope.locks lock) (exec : ExecId) :
      Change scope before (before.releaseLocks exec)

/-- What may be done to a machine by and by in a scope. -/
abbrev ChangesIn (scope : Scope) : Machine → Machine → Prop := Relation.ReflTransGen (Change scope)

/-- What may be done to a machine by and by. -/
abbrev Changes : Machine → Machine → Prop := ChangesIn .all

/-- Whether the ids in a machine's classes are linked and the accounts of its heap are
right. -/
structure Proper (machine : Machine) : Prop where
  closed : machine.registry.toClassTable.Closed
  accounted : machine.heap.Accounted

variable {scope : Scope} {before after : Machine}

/-! ## Locks that change -/

section

variable (machine : Machine)

theorem alike_setMonitor (monitor : Monitor) (lock : Lock) :
    machine.registry.toClassTable.Alike (machine.setMonitor monitor lock).registry.toClassTable := by
  cases lock with
  | object ref => exact .refl _
  | cls id =>
      exact .modify _ id ⟨rfl, rfl, rfl, rfl, rfl, rfl, rfl, rfl, rfl, fun _ held => held⟩ fun _ => rfl

theorem sameShapes_setMonitor (monitor : Monitor) (lock : Lock) :
    machine.heap.SameShapes (machine.setMonitor monitor lock).heap := by
  cases lock with
  | object ref => exact .modify _ ref fun _ => rfl
  | cls id => exact (Heap.Writes.of_objects rfl rfl rfl).toSameShapes

theorem interned_setMonitor (monitor : Monitor) (lock : Lock) :
    (machine.setMonitor monitor lock).interned = machine.interned := by
  cases lock <;> rfl

theorem alike_releaseLocks (exec : ExecId) :
    machine.registry.toClassTable.Alike (machine.releaseLocks exec).registry.toClassTable := by
  refine .map machine.registry.toClassTable (fun cls => ?_) fun cls => ?_
  · split
    · exact ⟨rfl, rfl, rfl, rfl, rfl, rfl, rfl, rfl, rfl, fun _ held => held⟩
    · exact .refl cls
  · split <;> rfl

end

/-! ## What a change keeps -/

/-- An object that is named is not collected. -/
theorem get?_collectGarbage_of_names (unmarked : before.heap.Unmarked) {ref : Ref}
    (named : before.Names ref) :
    before.collectGarbage.2.heap.get? ref = before.heap.get? ref := by
  have exact := fun object => get?_collectGarbage unmarked ref object
  cases live : before.heap.get? ref with
  | some object => exact (exact object).mpr ⟨live, .root named⟩
  | none =>
      cases survives : before.collectGarbage.2.heap.get? ref with
      | none => rfl
      | some object => cases live.symm.trans ((exact object).mp survives).1

namespace Change

variable (change : Change scope before after)

include change

theorem proper (proper : before.Proper) : after.Proper := by
  obtain ⟨closed, accounted⟩ := proper
  cases change with
  | aside _ registry heap | frames _ registry heap =>
      refine ⟨?_, ?_⟩
      · rw [registry]
        exact closed
      · rw [heap]
        exact accounted
  | link prefixes closes => exact ⟨closes closed, accounted⟩
  | classes alike => exact ⟨alike.closed closed, accounted⟩
  | resolve denotes =>
      refine ⟨closed.modify _ ⟨rfl, rfl, rfl, rfl, rfl⟩ fun known index => ?_, accounted⟩
      rw [ConstantPool.slot_set]
      split
      · exact denotes.idsIn closed known
      · exact (closed.classes _ known).pool index
  | write writes => exact ⟨closed, writes.accounted accounted⟩
  | insert new => exact ⟨closed, accounted.insert new.unmarked⟩
  | collect =>
      rw [collectGarbage_eq]
      exact ⟨closed, accounted.swept _⟩
  | intern ref => exact ⟨closed, (Heap.Writes.setSticky before.heap ref).accounted accounted⟩
  | @lock lock _ monitor =>
      have alike := before.alike_setMonitor monitor lock
      exact ⟨alike.closed closed, (before.sameShapes_setMonitor monitor lock).accounted accounted⟩
  | release _ exec =>
      have alike := before.alike_releaseLocks exec
      exact ⟨alike.closed closed, (Heap.SameShapes.releaseMonitors _ exec).accounted accounted⟩

/-- Classes and canonical strings are still there, and constants are what they were or what
those denote. -/
theorem caches (proper : before.Proper) : before.Caches after := by
  cases change with
  | aside _ registry _ interned | frames _ registry _ interned =>
      rw [Caches, registry, interned]
      exact .refl _
  | link prefixes =>
      exact .of_resembles (.of_prefixes prefixes) (fun _ _ found => found) fun owner known => by
        rw [prefixes.classes owner known]
  | classes alike =>
      exact .of_resembles alike.toResembles (fun _ _ found => found) fun owner _ =>
        alike.pools owner
  | resolve denotes => exact .of_denotes proper.closed denotes
  | @intern text ref fresh =>
      refine .of_resembles (.refl _) (fun other canonical found => ?_) fun _ _ => rfl
      have differs : text ≠ other := by
        rintro rfl
        cases fresh.symm.trans found
      change (before.interned.insert text ref)[other]? = some canonical
      rw [Std.HashMap.getElem?_insert, if_neg (by simpa using differs)]
      exact found
  | @lock lock _ monitor =>
      have alike := before.alike_setMonitor monitor lock
      refine .of_resembles alike.toResembles (fun _ _ found => ?_) fun owner _ => alike.pools owner
      rw [interned_setMonitor]
      exact found
  | release _ exec =>
      have alike := before.alike_releaseLocks exec
      exact .of_resembles alike.toResembles (fun _ _ found => found) fun owner _ => alike.pools owner
  | _ => exact .refl _

/-- The object of a canonical string stays live. -/
theorem class?_canonical (proper : before.Proper) {text : String} {ref : Ref}
    (canonical : before.interned[text]? = some ref) {cls : ClassId}
    (live : before.heap.class? ref = some cls) : after.heap.class? ref = some cls := by
  obtain ⟨object, here, rfl⟩ := Option.map_eq_some_iff.mp live
  cases change with
  | aside _ _ heap | frames _ _ heap =>
      rw [heap]
      exact live
  | write writes => exact (writes.class? ref).trans live
  | insert =>
      exact Option.map_eq_some_iff.mpr
        ⟨object, Heap.get?_insert_of_live proper.accounted here _, rfl⟩
  | collect =>
      exact Option.map_eq_some_iff.mpr
        ⟨object, (get?_collectGarbage_of_names proper.accounted.unmarked (.interned canonical)).trans here, rfl⟩
  | intern other => exact ((Heap.Writes.setSticky before.heap other).class? ref).trans live
  | @lock lock _ monitor => exact ((before.sameShapes_setMonitor monitor lock).class? ref).trans live
  | release _ exec => exact ((Heap.SameShapes.releaseMonitors _ exec).class? ref).trans live
  | _ => exact live

end Change

/-! ## Changes by and by -/

instance : Trans (ChangesIn scope) (ChangesIn scope) (ChangesIn scope) :=
  ⟨Relation.ReflTransGen.trans⟩

namespace ChangesIn

variable (changes : ChangesIn scope before after)

include changes

theorem proper (proper : before.Proper) : after.Proper := by
  induction changes with
  | refl => exact proper
  | tail _ change ih => exact change.proper ih

/-- What was resolved stays resolved, and what is resolved is what the constants denote. -/
theorem caches (proper : before.Proper) : before.Caches after := by
  induction changes with
  | refl => exact .refl _
  | tail changes change ih =>
      have middle := ChangesIn.proper changes proper
      exact .trans middle.closed ih (change.caches middle)

/-- Handles of canonical strings are never used for other objects. -/
theorem class?_canonical (proper : before.Proper) {text : String} {ref : Ref}
    (canonical : before.interned[text]? = some ref) {cls : ClassId}
    (live : before.heap.class? ref = some cls) : after.heap.class? ref = some cls := by
  induction changes with
  | refl => exact live
  | tail changes change ih =>
      exact change.class?_canonical (ChangesIn.proper changes proper)
        ((ChangesIn.caches changes proper).strings text ref canonical) ih

end ChangesIn

/-! ## Steps that go along changes -/

/-- Whether a step goes along changes in a scope, from wherever and however it ends. -/
def WalksIn (scope : Scope) {ε α : Type} (step : EStateM ε Machine α) : Prop :=
  ∀ machine, Moves (ChangesIn scope) step machine fun _ _ => True

/-- Whether a step goes along changes, from wherever and however it ends. -/
abbrev Walks {ε α : Type} (step : EStateM ε Machine α) : Prop := WalksIn .all step

namespace WalksIn

variable {ε α β : Type}

protected theorem bind {step : EStateM ε Machine β} {next : β → EStateM ε Machine α}
    (first : WalksIn scope step) (rest : ∀ value, WalksIn scope (next value)) :
    WalksIn scope (step >>= next) :=
  fun machine => (first machine).bind fun value after _ _ => rest value after

theorem ok {step : EStateM ε Machine α} (walks : WalksIn scope step)
    {machine after : Machine} {value : α} (ran : step machine = .ok value after) : ChangesIn scope machine after :=
  (ends_of_ok ran (walks machine)).1

end WalksIn

end Machine

end Jvm
