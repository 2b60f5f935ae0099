import Jvm.Proofs.Changing.Caching
import Jvm.Proofs.Locking.Guarding
import Jvm.Proofs.Machine.Endings

/-!
# Entries and exits

What befalls a lock in the course of a run is that executions enter it and leave it, that it is
freed when one that holds it is given up, and that the object it belongs to is collected. As long
as fewer entries are outstanding than a count can tell, the count of a monitor is that of the
entries that are outstanding; all of them were made, since the monitor was last free, by the
execution that owns it.
-/

namespace Jvm

/-! ## Histories of a lock -/

/-- What befalls a lock. -/
inductive LockEvent where
  | entered (exec : ExecId)
  | left (exec : ExecId)
  /-- All that an execution holds is freed. -/
  | freed (exec : ExecId)
  /-- The object of the lock is collected. -/
  | gone
  deriving DecidableEq

namespace LockEvent

/-- How many entries are outstanding after an event. -/
def after (entries : Nat) : LockEvent → Nat
  | .entered _ => entries + 1
  | .left _ => entries - 1
  | .freed _ | .gone => 0

/-- How many entries are outstanding at the end of a history. -/
def outstanding (events : List LockEvent) : Nat := events.foldl after 0

@[simp] theorem outstanding_concat (events : List LockEvent) (event : LockEvent) :
    outstanding (events ++ [event]) = event.after (outstanding events) := by
  rw [outstanding, List.foldl_concat, outstanding]

/-- No more entries are outstanding than events took place. -/
theorem outstanding_le_length (events : List LockEvent) : outstanding events ≤ events.length := by
  induction events using List.reverseRecOn with
  | nil => exact Nat.le_refl 0
  | append_singleton events event ih =>
      rw [outstanding_concat, List.length_append, List.length_singleton]
      cases event <;> simp only [after] <;> omega

/-- Whether the last events of a history are the entries and exits of one execution since a lock
was last free. -/
structure Spell (owner : ExecId) (earlier recent : List LockEvent) : Prop where
  free : outstanding earlier = 0
  own : ∀ event ∈ recent, event = .entered owner ∨ event = .left owner
  held : ∀ part, part <+: recent → part ≠ [] → 0 < outstanding (earlier ++ part)
  entries : outstanding (earlier ++ recent) + recent.count (.left owner) =
    recent.count (.entered owner)

namespace Spell

variable {owner : ExecId} {earlier recent : List LockEvent}

theorem begins (owner : ExecId) (free : outstanding earlier = 0) :
    Spell owner earlier [.entered owner] where
  free := free
  own _ member := .inl (List.mem_singleton.mp member)
  held part isPart nonempty := by
    rcases List.prefix_concat_iff.mp (List.nil_append [entered owner] ▸ isPart) with rfl | none
    · rw [List.nil_append, outstanding_concat]
      exact Nat.succ_pos _
    · exact absurd (List.prefix_nil.mp none) nonempty
  entries := by
    rw [outstanding_concat, after, free]
    simp

section

variable (spell : Spell owner earlier recent)

include spell

/-- The events of a spell go on as long as the lock does not become free. -/
theorem extend {event : LockEvent} (own : event = .entered owner ∨ event = .left owner)
    (held : 0 < outstanding (earlier ++ (recent ++ [event])))
    (entries : outstanding (earlier ++ (recent ++ [event])) +
      (recent ++ [event]).count (.left owner) = (recent ++ [event]).count (.entered owner)) :
    Spell owner earlier (recent ++ [event]) where
  free := spell.free
  own other member := by
    rcases List.mem_append.mp member with before | last
    · exact spell.own other before
    · exact List.mem_singleton.mp last ▸ own
  held part isPart nonempty := by
    rcases List.prefix_concat_iff.mp isPart with rfl | before
    · exact held
    · exact spell.held part before nonempty
  entries := entries

theorem enter : Spell owner earlier (recent ++ [.entered owner]) := by
  have before := spell.entries
  have now : outstanding (earlier ++ (recent ++ [.entered owner])) =
      outstanding (earlier ++ recent) + 1 := by
    rw [← List.append_assoc, outstanding_concat, after]
  refine spell.extend (.inl rfl) ?_ ?_
  · rw [now]
    exact Nat.succ_pos _
  · rw [now, List.count_append, List.count_append]
    simp
    omega

theorem leave (nested : 1 < outstanding (earlier ++ recent)) :
    Spell owner earlier (recent ++ [.left owner]) := by
  have before := spell.entries
  have now : outstanding (earlier ++ (recent ++ [.left owner])) =
      outstanding (earlier ++ recent) - 1 := by
    rw [← List.append_assoc, outstanding_concat, after]
  refine spell.extend (.inr rfl) ?_ ?_
  · rw [now]
    exact Nat.sub_pos_of_lt nested
  · rw [now, List.count_append, List.count_append]
    simp
    omega

end

end Spell

end LockEvent

open LockEvent

/-! ## What a count tells -/

/-- Whether the count of a monitor is that of the entries that are outstanding, and these are its
owner's. -/
structure Monitor.Tallies (monitor : Monitor) (events : List LockEvent) : Prop where
  count : monitor.count.toNat = outstanding events
  owned : monitor.count ≠ 0 → ∃ earlier recent, events = earlier ++ recent ∧
    Spell monitor.owner earlier recent

namespace Monitor.Tallies

variable {monitor next : Monitor} {exec : ExecId} {events : List LockEvent}

theorem of_free (free : monitor.count = 0) (none : outstanding events = 0) :
    monitor.Tallies events where
  count := by rw [free, none]; rfl
  owned held := absurd free held

/-- An entry is counted if there is room for it. -/
theorem enter (tallies : monitor.Tallies events) (enters : monitor.enter exec = some next)
    (room : outstanding (events ++ [.entered exec]) < UInt32.size) :
    next.Tallies (events ++ [.entered exec]) := by
  rw [outstanding_concat, LockEvent.after] at room
  rw [Monitor.enter] at enters
  split at enters
  next admitted =>
      cases enters
      refine ⟨?_, fun _ => ?_⟩
      · rw [outstanding_concat, LockEvent.after, UInt32.toNat_add, tallies.count]
        exact Nat.mod_eq_of_lt room
      · by_cases free : monitor.count = 0
        · refine ⟨events, [.entered exec], rfl, .begins exec ?_⟩
          rw [← tallies.count, free]
          rfl
        · obtain ⟨earlier, recent, rfl, spell⟩ := tallies.owned free
          have own := admitted.resolve_left free
          exact ⟨earlier, recent ++ [.entered exec], List.append_assoc .., own ▸ spell.enter⟩
  next => cases enters

/-- An exit is counted. -/
theorem leave (tallies : monitor.Tallies events) (exits : monitor.exit exec = some next) :
    next.Tallies (events ++ [.left exec]) := by
  have depth := depth_of_exit exits
  rw [Monitor.exit] at exits
  split at exits
  next => cases exits
  next holds =>
      obtain ⟨taken, own⟩ := not_or.mp holds
      have own : monitor.owner = exec := not_not.mp own
      split at exits
      next once =>
          cases exits
          refine .of_free rfl ?_
          rw [outstanding_concat, LockEvent.after, ← tallies.count, once]
          rfl
      next nested =>
          cases exits
          have positive : 1 ≤ monitor.count.toNat :=
            Nat.one_le_iff_ne_zero.mpr fun zero => taken (UInt32.toNat_inj.mp zero)
          have deep : monitor.count.toNat ≠ 1 := fun one => nested (UInt32.toNat_inj.mp one)
          refine ⟨?_, fun _ => ?_⟩
          · rw [outstanding_concat, LockEvent.after, ← tallies.count,
              UInt32.toNat_sub_of_le _ _ positive]
            rfl
          · obtain ⟨earlier, recent, rfl, spell⟩ := tallies.owned taken
            refine ⟨earlier, recent ++ [.left exec], List.append_assoc .., ?_⟩
            rw [← own]
            refine spell.leave ?_
            rw [← tallies.count]
            omega

end Monitor.Tallies

namespace Machine

/-! ## Runs, as a lock fares in them -/

/-- What befalls a lock in the course of a run. -/
inductive Fares (lock : Lock) (start : Machine) : List LockEvent → Machine → Prop
  | start : Fares lock start [] start
  /-- The running execution enters the lock. -/
  | enters {events : List LockEvent} {machine after : Machine}
      (fares : Fares lock start events machine) (there : (machine.monitor? lock).isSome)
      (linked : lock.Linked machine.registry.toClassTable)
      (entered : machine.enterLock lock = (true, after)) :
      Fares lock start (events ++ [.entered machine.exec.id]) after
  /-- The running execution leaves the lock. -/
  | leaves {events : List LockEvent} {machine after : Machine}
      (fares : Fares lock start events machine)
      (linked : lock.Linked machine.registry.toClassTable)
      (left : machine.exitLock lock = (true, after)) :
      Fares lock start (events ++ [.left machine.exec.id]) after
  /-- An execution that holds the lock is given up. -/
  | frees {events : List LockEvent} {machine : Machine} (fares : Fares lock start events machine)
      {monitor : Monitor} (found : machine.monitor? lock = some monitor) {exec : ExecId}
      (held : monitor.heldBy exec = true) :
      Fares lock start (events ++ [.freed exec]) (machine.releaseLocks exec)
  /-- The object of the lock is collected. -/
  | vanishes {events : List LockEvent} {machine after : Machine}
      (fares : Fares lock start events machine) (change : Change .all machine after)
      (gone : after.monitor? lock = none) : Fares lock start (events ++ [.gone]) after
  /-- An object is made, and the lock is its lock. -/
  | appears {events : List LockEvent} {machine after : Machine}
      (fares : Fares lock start events machine) (change : Change .all machine after)
      (absent : machine.monitor? lock = none) (fresh : after.monitor? lock = some .free) :
      Fares lock start events after
  /-- Whatever else happens. -/
  | aside {events : List LockEvent} {machine after : Machine}
      (fares : Fares lock start events machine) (change : Change .all machine after)
      (same : after.monitor? lock = machine.monitor? lock) : Fares lock start events after

/-- Whether a lock is held by nobody, if its object is there. -/
def Ownerless (machine : Machine) (lock : Lock) : Prop :=
  ∀ monitor, machine.monitor? lock = some monitor → monitor.count = 0

/-- Whether the monitor of a lock tells what has befallen it. -/
structure Tells (machine : Machine) (lock : Lock) (events : List LockEvent) : Prop where
  absent : machine.monitor? lock = none → outstanding events = 0
  tallies : ∀ monitor, machine.monitor? lock = some monitor → monitor.Tallies events

variable {lock : Lock} {start before machine after : Machine} {events : List LockEvent}

theorem monitor_of_enterLock (linked : lock.Linked machine.registry.toClassTable)
    {monitor : Monitor} (found : machine.monitor? lock = some monitor)
    (entered : machine.enterLock lock = (true, after)) : ∃ next,
      monitor.enter machine.exec.id = some next ∧ after.monitor? lock = some next := by
  rw [enterLock, found] at entered
  dsimp only at entered
  cases enters : monitor.enter machine.exec.id with
  | none =>
      rw [enters] at entered
      cases entered
  | some next =>
      rw [enters] at entered
      cases entered
      exact ⟨next, rfl, by rw [monitor?_setMonitor_self machine linked, found, Option.map_some]⟩

theorem monitor_of_exitLock (linked : lock.Linked machine.registry.toClassTable)
    (left : machine.exitLock lock = (true, after)) : ∃ monitor next,
      machine.monitor? lock = some monitor ∧ monitor.exit machine.exec.id = some next ∧
        after.monitor? lock = some next := by
  rw [exitLock] at left
  cases exits : (machine.monitor? lock).bind (·.exit machine.exec.id) with
  | none =>
      rw [exits] at left
      cases left
  | some next =>
      rw [exits] at left
      cases left
      obtain ⟨monitor, found, exits⟩ := Option.bind_eq_some_iff.mp exits
      exact ⟨monitor, next, found, exits,
        by rw [monitor?_setMonitor_self machine linked, found, Option.map_some]⟩

/-- The count of a monitor is that of the entries that are outstanding, as long as these are fewer
than it can tell. -/
theorem Fares.tells (fares : Fares lock start events machine) (ownerless : start.Ownerless lock)
    (bounded : ∀ part, part <+: events → outstanding part < UInt32.size) :
    machine.Tells lock events := by
  induction fares with
  | start => exact ⟨fun _ => rfl, fun monitor found => .of_free (ownerless monitor found) rfl⟩
  | enters _ there linked entered ih =>
      have told := ih fun part isPart => bounded part (isPart.trans (List.prefix_append ..))
      obtain ⟨monitor, found⟩ := Option.isSome_iff_exists.mp there
      obtain ⟨next, enters, now⟩ := monitor_of_enterLock linked found entered
      refine ⟨fun absent => (nomatch now.symm.trans absent), fun other found' => ?_⟩
      cases now.symm.trans found'
      exact (told.tallies monitor found).enter enters (bounded _ (List.prefix_refl _))
  | leaves _ linked left ih =>
      have told := ih fun part isPart => bounded part (isPart.trans (List.prefix_append ..))
      obtain ⟨monitor, next, found, exits, now⟩ := monitor_of_exitLock linked left
      refine ⟨fun absent => (nomatch now.symm.trans absent), fun other found' => ?_⟩
      cases now.symm.trans found'
      exact (told.tallies monitor found).leave exits
  | @frees events machine _ monitor found exec held ih =>
      have now : (machine.releaseLocks exec).monitor? lock = some .free := by
        rw [monitor?_releaseLocks, found, Option.map_some, if_pos held]
      refine ⟨fun absent => (nomatch now.symm.trans absent), fun other found' => ?_⟩
      cases now.symm.trans found'
      exact .of_free rfl (outstanding_concat ..)
  | vanishes _ _ gone =>
      exact ⟨fun _ => outstanding_concat .., fun _ found => nomatch gone.symm.trans found⟩
  | appears _ _ absent fresh ih =>
      refine ⟨fun gone => (nomatch fresh.symm.trans gone), fun monitor found => ?_⟩
      cases fresh.symm.trans found
      exact .of_free rfl ((ih bounded).absent absent)
  | aside _ _ same ih =>
      have told := ih bounded
      exact ⟨fun absent => told.absent (same ▸ absent), fun monitor found =>
        told.tallies monitor (same ▸ found)⟩

/-! ## Every run is one -/

/-- What befalls the lock of an object when one is allocated, which may be that object. -/
theorem Fares.insert (fares : Fares lock start events before) (proper : before.Proper)
    {object : Object} (new : object.IsNew) :
    Fares lock start events { before with heap := (before.heap.insert object).2 } := by
  have change : Change .all before { before with heap := (before.heap.insert object).2 } :=
    .insert new
  cases lock with
  | cls id => exact fares.aside change rfl
  | object ref =>
      cases live : before.heap.get? ref with
      | some held =>
          have kept := Heap.get?_insert_of_live proper.accounted live object
          exact fares.aside change (congrArg (Option.map Object.monitor) (kept.trans live.symm))
      | none =>
          cases made : (before.heap.insert object).2.get? ref with
          | none =>
              exact fares.aside change
                (congrArg (Option.map Object.monitor) (made.trans live.symm))
          | some other =>
              have same : other = object :=
                (Heap.eq_or_held_of_insert made).resolve_right fun held =>
                  nomatch live.symm.trans held
              subst same
              refine fares.appears change (congrArg (Option.map Object.monitor) live) ?_
              exact (congrArg (Option.map Object.monitor) made).trans (congrArg some new.free)

/-- A collection takes objects with their locks, or leaves them alone. -/
theorem Fares.collect (fares : Fares lock start events before) :
    ∃ further, Fares lock start (events ++ further) before.collectGarbage.2 := by
  cases lock with
  | cls id => exact ⟨[], (List.append_nil events).symm ▸ fares.aside .collect rfl⟩
  | object ref =>
      cases left : before.collectGarbage.2.heap.get? ref with
      | none => exact ⟨[.gone], fares.vanishes .collect (congrArg (Option.map Object.monitor) left)⟩
      | some object =>
          have swept := before.heap_collectGarbage ▸ left
          obtain ⟨found, live, rfl⟩ := Heap.exists_of_swept swept
          have same : before.collectGarbage.2.monitor? (.object ref) = before.monitor? (.object ref) :=
            (congrArg (Option.map Object.monitor) left).trans
              (congrArg (Option.map Object.monitor) live).symm
          exact ⟨[], (List.append_nil events).symm ▸ fares.aside .collect same⟩

/-- A class that is not there keeps no monitor. -/
theorem monitor?_setMonitor_of_unlinked (unlinked : ¬lock.Linked machine.registry.toClassTable)
    (monitor : Monitor) :
    (machine.setMonitor monitor lock).monitor? lock = machine.monitor? lock := by
  cases lock with
  | object ref => exact absurd trivial unlinked
  | cls id =>
      have outside : machine.registry.classes.size ≤ id.index := Nat.le_of_not_lt unlinked
      rw [monitor?, monitor?, setMonitor, cls, cls, modifyClass, ClassTable.get, ClassTable.get,
        Array.getD_eq_getD_getElem?, Array.getD_eq_getD_getElem?,
        Array.getElem?_eq_none outside, Array.getElem?_eq_none]
      exact Nat.le_trans (Nat.le_of_eq (ClassTable.size_modify ..)) outside

/-- A lock is entered or left, or another one is. -/
theorem Fares.turn (fares : Fares lock start events before) {turned : Lock} {held monitor : Monitor}
    (found : before.monitor? turned = some held)
    (turns : held.enter before.exec.id = some monitor ∨ held.exit before.exec.id = some monitor) :
    ∃ further, Fares lock start (events ++ further) (before.setMonitor monitor turned) := by
  have change : Change .all before (before.setMonitor monitor turned) :=
    .lock trivial monitor found turns
  by_cases same : turned = lock
  · subst same
    by_cases linked : turned.Linked before.registry.toClassTable
    · rcases turns with enters | exits
      · refine ⟨[.entered before.exec.id], fares.enters (found ▸ rfl) linked ?_⟩
        simp only [enterLock, found, enters]
      · refine ⟨[.left before.exec.id], fares.leaves linked ?_⟩
        simp only [exitLock, found, Option.bind_some, exits]
    · exact ⟨[], (List.append_nil events).symm ▸
        fares.aside change (monitor?_setMonitor_of_unlinked linked monitor)⟩
  · exact ⟨[], (List.append_nil events).symm ▸
      fares.aside change (before.monitor?_setMonitor_of_ne same monitor)⟩

/-- An execution is given up, which may hold the lock. -/
theorem Fares.release (fares : Fares lock start events before) (exec : ExecId) :
    ∃ further, Fares lock start (events ++ further) (before.releaseLocks exec) := by
  have change : Change .all before (before.releaseLocks exec) := .release (fun _ => trivial) exec
  have left := monitor?_releaseLocks before exec lock
  cases found : before.monitor? lock with
  | none =>
      rw [found] at left
      exact ⟨[], (List.append_nil events).symm ▸ fares.aside change (left.trans found.symm)⟩
  | some monitor =>
      by_cases held : monitor.heldBy exec = true
      · exact ⟨[.freed exec], fares.frees found held⟩
      · rw [found, Option.map_some, if_neg held] at left
        exact ⟨[], (List.append_nil events).symm ▸ fares.aside change (left.trans found.symm)⟩

/-- A change is one of the things that befall a lock, or leaves it alone. -/
theorem Fares.change (fares : Fares lock start events before) (proper : before.Proper)
    (change : Change .all before after) :
    ∃ further, Fares lock start (events ++ further) after := by
  have alone : after.monitor? lock = before.monitor? lock →
      ∃ further, Fares lock start (events ++ further) after := fun same =>
    ⟨[], (List.append_nil events).symm ▸ fares.aside change same⟩
  cases change with
  | aside _ registry heap | frames _ registry heap =>
      refine alone ?_
      cases lock with
      | object ref => rw [monitor?, monitor?, heap]
      | cls id => rw [monitor?, monitor?, cls, cls, registry]
  | link prefixes =>
      refine alone ?_
      cases lock with
      | object ref => rfl
      | cls id => exact congrArg some (prefixes.monitor_get id)
  | classes _ monitors =>
      refine alone ?_
      cases lock with
      | object ref => rfl
      | cls id => exact congrArg some (monitors id)
  | @resolve owner =>
      refine alone ?_
      cases lock with
      | object ref => rfl
      | cls id =>
          exact congrArg some (before.registry.view_modify owner id _ Class.monitor fun _ => rfl)
  | write writes =>
      refine alone ?_
      cases lock with
      | object ref => exact writes.monitor_get? ref
      | cls id => rfl
  | insert new => exact ⟨[], (List.append_nil events).symm ▸ fares.insert proper new⟩
  | collect => exact fares.collect
  | intern ref =>
      refine alone ?_
      cases lock with
      | object other => exact (Heap.Writes.setSticky before.heap ref).monitor_get? other
      | cls id => rfl
  | lock _ monitor found turned => exact fares.turn found turned
  | release _ exec => exact fares.release exec

/-- Whatever is done with a machine is a run in which a lock fares somehow. -/
theorem exists_fares (proper : start.Proper) (changes : Changes start after) (lock : Lock) :
    ∃ events, Fares lock start events after := by
  induction changes with
  | refl => exact ⟨[], .start⟩
  | tail changes change ih =>
      obtain ⟨events, fares⟩ := ih
      obtain ⟨further, fares⟩ := fares.change (ChangesIn.proper changes proper) change
      exact ⟨_, fares⟩

end Machine

end Jvm
