import Mathlib.Data.List.Flatten
import Mathlib.Data.List.Perm.Subperm
import Mathlib.Logic.Relation
import Jvm.Proofs.Machine.Chain
import Jvm.Proofs.Machine.Closed

/-!
# The progress of initialization

The state of a class moves one way: its initialization begins, and then it is
complete or has failed. What holds this together are the frames of initializers. Each
class has one such frame at most, and only while it is being initialized; the frame
comes when initialization begins, and what becomes of the class is settled when the
frame is left. A class without an initializer of its own waits for a superclass, or is
settled at once.
-/

namespace Jvm

/-- How the state of a class changes. -/
inductive InitState.Next : InitState → InitState → Prop
  | begin : Next .uninitialized .initializing
  | complete : Next .initializing .initialized
  | fail : Next .initializing .failed

namespace InitState

/-- How the state of a class may have changed after any number of steps. -/
abbrev LeadsTo : InitState → InitState → Prop := Relation.ReflTransGen Next

theorem eq_uninitialized_of_leadsTo {state : InitState} (leads : state.LeadsTo .uninitialized) :
    state = .uninitialized := by
  rcases Relation.ReflTransGen.cases_tail leads with same | ⟨_, _, next⟩
  · exact same.symm
  · cases next

theorem next_endState (succeeded : Bool) :
    Next .initializing (ClassTable.endState succeeded) := by
  cases succeeded
  · exact .fail
  · exact .complete

end InitState

namespace ClassTable

variable {table : ClassTable}

/-- A class that waits for an initializer has none itself. -/
theorem of_mem_waiting {id other : ClassId} (waits : other ∈ table.waiting id) :
    other = id ∨
      (table.get other).initState = .initializing ∧ (table.get other).initializer? = none := by
  have kept : ∀ (indices : List Nat) (found : List ClassId),
      (∀ other ∈ found, other = id ∨
        (table.get other).initState = .initializing ∧ (table.get other).initializer? = none) →
      ∀ other ∈ indices.foldl (fun found index =>
        if found.any fun above => table.waitsFor ⟨index⟩ above then ⟨index⟩ :: found else found)
        found, other = id ∨
          (table.get other).initState = .initializing ∧ (table.get other).initializer? = none := by
    intro indices
    induction indices with
    | nil => exact fun _ holds => holds
    | cons index indices ih =>
        intro found holds
        rw [List.foldl_cons]
        apply ih
        split
        next waiting =>
            intro other member
            rcases List.mem_cons.mp member with rfl | member
            · obtain ⟨above, -, waits⟩ := List.any_eq_true.mp waiting
              simp only [waitsFor, Bool.and_eq_true, beq_iff_eq, Option.isNone_iff_eq_none] at waits
              exact .inr ⟨waits.1.2, waits.2⟩
            · exact holds other member
        next => exact holds
  apply kept _ [id] _ other waits
  intro other member
  exact .inl (List.mem_singleton.mp member)

/-- Whether the classes of a table are those of an earlier one but for the progress of
their initialization. -/
structure Restates (before after : ClassTable) : Prop where
  size : after.size = before.size
  classes : ∀ id, before.Has id →
    after.get id = { before.get id with initState := (after.get id).initState }

theorem initState_setState {id other : ClassId} {state : InitState} (known : table.Has other) :
    ((table.modify id fun cls => { cls with initState := state }).get other).initState =
      if id = other then state else (table.get other).initState := by
  rw [get_modify table id other _ known]
  split <;> rfl

theorem growsTo_setState (id : ClassId) (state : InitState) :
    table.GrowsTo (table.modify id fun cls => { cls with initState := state }) :=
  growsTo_modify id ⟨rfl, rfl, rfl, rfl, rfl⟩

theorem restates_setState (id : ClassId) (state : InitState) :
    table.Restates (table.modify id fun cls => { cls with initState := state }) where
  size := size_modify ..
  classes other known := by
    rw [get_modify table id other _ known]
    split <;> rfl

theorem leadsTo_setState {id other : ClassId} {state : InitState}
    (next : (table.get id).initState.Next state) (known : table.Has other) :
    (table.get other).initState.LeadsTo
      ((table.modify id fun cls => { cls with initState := state }).get other).initState := by
  rw [initState_setState known]
  split
  next same => exact same ▸ .single next
  next => exact .refl

theorem restates_finishInitialization (id : ClassId) (succeeded : Bool) :
    table.Restates (table.finishInitialization id succeeded) where
  size := finishInitialization_induct (motive := fun after => after.size = table.size) rfl
    fun after other same => (size_modify after other _).trans same
  classes other known := by
    rw [get_finishInitialization known]
    split <;> rfl

theorem Ordered.restate {before after : ClassTable} (ordered : before.Ordered)
    (restates : before.Restates after)
    (begun : ∀ id, before.Has id → (after.get id).initState ≠ .uninitialized →
      (before.get id).initState ≠ .uninitialized ∨ (before.get id).Prepared) : after.Ordered := by
  have same : ∀ {α : Type} (part : Class → α),
      (∀ (cls : Class) (state : InitState), part { cls with initState := state } = part cls) →
      ∀ id, before.Has id → part (after.get id) = part (before.get id) := by
    intro α part kept id known
    rw [restates.classes id known]
    exact kept _ _
  apply ordered.of_classes restates.size (same Class.array fun _ _ => rfl)
    (same Class.fields fun _ _ => rfl) (same (·.methods.size) fun _ _ => rfl)
  · intro id known plain late
    have prepared : (before.get id).Prepared := by
      rcases begun id known late with early | prepared
      · exact ordered.prepared id known plain early
      · exact prepared
    rw [restates.classes id known]
    exact prepared
  · intro id index field known held
    rw [same Class.pool (fun _ _ => rfl) id known] at held
    exact ordered.constants id index field known held

end ClassTable

/-! ## Initializers among methods -/

namespace Registry

/-- The classes whose initializers are among some methods. -/
def initializing (registry : Registry) (live : List MethodId) : List ClassId :=
  (live.filter fun id => (registry.method id).isInitializer).map (·.owner)

/-- Whether initialization is in order while some methods have frames: there is one frame
at most for each class whose initializer runs, and only while the class is being
initialized. -/
structure Orderly (registry : Registry) (live : List MethodId) : Prop where
  ordered : registry.Ordered
  linked : ∀ id ∈ live, registry.HasMethod id
  own : ∀ id ∈ live, (registry.method id).isInitializer = true →
    (registry.get id.owner).initializer? = some id
  once : (registry.initializing live).Nodup
  running : ∀ id ∈ registry.initializing live, (registry.get id).initState = .initializing

/-- Whether initialization has stayed in order, and gone one way. -/
structure Progresses (before : Registry) (live : List MethodId) (after : Registry)
    (left : List MethodId) : Prop where
  orderly : after.Orderly left
  states : ∀ id, before.Has id → (before.get id).initState.LeadsTo (after.get id).initState
  launched : ∀ id ∈ after.initializing left, before.Has id →
    id ∈ before.initializing live ∨ (before.get id).initState = .uninitialized

section

variable {registry : Registry} {live left : List MethodId}

theorem mem_initializing {id : ClassId} :
    id ∈ registry.initializing live ↔
      ∃ method ∈ live, (registry.method method).isInitializer = true ∧ method.owner = id := by
  simp only [initializing, List.mem_map, List.mem_filter, and_assoc]

theorem initializing_cons (registry : Registry) (live : List MethodId) (method : MethodId) :
    registry.initializing (method :: live) =
      if (registry.method method).isInitializer then method.owner :: registry.initializing live
      else registry.initializing live := by
  rw [initializing, List.filter_cons]
  split <;> rfl

theorem initializing_subperm (fewer : left.Subperm live) :
    (registry.initializing left).Subperm (registry.initializing live) := by
  obtain ⟨same, perm, sublist⟩ := fewer.filter fun id => (registry.method id).isInitializer
  exact ⟨same.map (·.owner), perm.map _, sublist.map _⟩

/-- Methods keep their names. -/
theorem initializing_congr {after : Registry}
    (grows : registry.GrowsTo after.toClassTable) (known : ∀ id ∈ live, registry.Has id.owner) :
    after.initializing live = registry.initializing live := by
  have same : ∀ id ∈ live, (after.method id).isInitializer = (registry.method id).isInitializer := by
    intro id member
    rw [Method.isInitializer, Method.isInitializer, grows.name_method (known id member)]
  rw [initializing, initializing, List.filter_congr same]

end

/-- What has to be shown of a change of classes and of methods that have frames. -/
theorem progresses_of_states {before after : Registry} {live left : List MethodId}
    (closed : before.Closed) (closed' : after.Closed) (grows : before.GrowsTo after.toClassTable)
    (ordered : after.Ordered) (linked : ∀ id ∈ left, before.HasMethod id)
    (own : ∀ id ∈ left, (before.method id).isInitializer = true →
      (before.get id.owner).initializer? = some id)
    (once : (before.initializing left).Nodup)
    (running : ∀ id ∈ before.initializing left, (after.get id).initState = .initializing)
    (states : ∀ id, before.Has id → (before.get id).initState.LeadsTo (after.get id).initState)
    (launched : ∀ id ∈ before.initializing left,
      id ∈ before.initializing live ∨ (before.get id).initState = .uninitialized) :
    before.Progresses live after left := by
  have same : after.initializing left = before.initializing left :=
    initializing_congr grows fun id member => (linked id member).1
  refine ⟨⟨ordered, ?_, ?_, ?_, ?_⟩, states, ?_⟩
  · exact fun id member => grows.hasMethod (linked id member)
  · intro id member initializer
    have known := (linked id member).1
    rw [Method.isInitializer, grows.name_method known] at initializer
    rw [Class.initializer?, grows.declaredMethod? closed.table closed'.table known]
    exact own id member initializer
  · rw [same]
    exact once
  · rw [same]
    exact running
  · rw [same]
    exact fun id member _ => launched id member

namespace Orderly

section

variable {before after : Registry} {live left : List MethodId} (orderly : before.Orderly live)

include orderly

theorem has_of_mem {id : MethodId} (member : id ∈ live) : before.Has id.owner :=
  (orderly.linked id member).1

theorem has_of_mem_initializing {id : ClassId} (member : id ∈ before.initializing live) :
    before.Has id := by
  obtain ⟨method, found, -, rfl⟩ := mem_initializing.mp member
  exact orderly.has_of_mem found

theorem notMem_of_state {id : ClassId} (state : (before.get id).initState ≠ .initializing) :
    id ∉ before.initializing live :=
  fun member => state (orderly.running id member)

/-- Frames may go while nothing becomes of any class. -/
theorem progresses_of_rests (closed : before.Closed) (closed' : after.Closed)
    (grows : before.GrowsTo after.toClassTable) (rests : before.Rests after)
    (fewer : left.Subperm live) : before.Progresses live after left := by
  have among := fewer.subset
  have initializers := @initializing_subperm before live left fewer
  apply progresses_of_states closed closed' grows (rests.ordered orderly.ordered)
  · exact fun id member => orderly.linked id (among member)
  · exact fun id member => orderly.own id (among member)
  · obtain ⟨same, perm, sublist⟩ := initializers
    exact perm.nodup_iff.mp (orderly.once.sublist sublist)
  · intro id member
    have running := orderly.running id (initializers.subset member)
    rw [rests.table.state id (orderly.has_of_mem_initializing (initializers.subset member))]
    exact running
  · intro id known
    rw [rests.table.state id known]
  · exact fun id member => .inl (initializers.subset member)

/-- A frame of a method that is no initializer makes no difference. -/
theorem progresses_enter {method : MethodId} (closed : before.Closed)
    (linked : before.HasMethod method)
    (plain : (before.method method).isInitializer = false) :
    before.Progresses live before (method :: live) := by
  have all := initializing_cons before live method
  rw [plain, if_neg Bool.false_ne_true] at all
  apply progresses_of_states closed closed (.refl _) orderly.ordered
  · intro id member
    rcases List.mem_cons.mp member with rfl | member
    · exact linked
    · exact orderly.linked id member
  · intro id member initializer
    rcases List.mem_cons.mp member with rfl | member
    · cases plain.symm.trans initializer
    · exact orderly.own id member initializer
  · rw [all]
    exact orderly.once
  · rw [all]
    exact orderly.running
  · exact fun id known => .refl
  · rw [all]
    exact fun id member => .inl member

/-- The state of a class whose initializer has no frame makes no difference to those that
have one. -/
theorem running_setState {id : ClassId} (absent : id ∉ before.initializing live)
    (state : InitState) :
    ∀ other ∈ before.initializing live,
      ((before.modify id fun cls => { cls with initState := state }).get other).initState =
        .initializing := by
  intro other member
  rw [ClassTable.initState_setState (orderly.has_of_mem_initializing member)]
  split
  next same => exact (absent (same ▸ member)).elim
  next => exact orderly.running other member

/-- A class that leaves its first state has its static fields. -/
theorem ordered_setState {id : ClassId}
    (begun : (before.get id).initState ≠ .uninitialized ∨ (before.get id).Prepared)
    (state : InitState) :
    Ordered { before with toClassTable := before.modify id fun cls =>
      { cls with initState := state } } := by
  apply orderly.ordered.of_table (before.growsTo_setState id state)
  apply orderly.ordered.table.restate (ClassTable.restates_setState _ _)
  intro other known late
  rw [ClassTable.initState_setState known] at late
  split at late
  next same => exact same ▸ begun
  next => exact .inl late

/-- A class goes on whose initializer has no frame. -/
theorem progresses_setState {id : ClassId} {state : InitState} (closed : before.Closed)
    (closed' : { before with toClassTable := before.modify id fun cls =>
      { cls with initState := state } }.Closed)
    (next : (before.get id).initState.Next state)
    (begun : (before.get id).initState ≠ .uninitialized ∨ (before.get id).Prepared)
    (absent : id ∉ before.initializing live) :
    before.Progresses live { before with toClassTable := before.modify id fun cls =>
      { cls with initState := state } } live := by
  apply progresses_of_states closed closed' (before.growsTo_setState id state)
    (orderly.ordered_setState begun state) orderly.linked orderly.own orderly.once
    (orderly.running_setState absent state)
  · exact fun other known => ClassTable.leadsTo_setState next known
  · exact fun other member => .inl member

/-- A class begins with a frame of its initializer. -/
theorem progresses_begin {id : ClassId} {method : MethodId} (closed : before.Closed)
    (known : before.Has id) (state : (before.get id).initState = .uninitialized)
    (prepared : (before.get id).Prepared)
    (closed' : { before with toClassTable := before.modify id fun cls =>
      { cls with initState := .initializing } }.Closed)
    (found : (before.get id).initializer? = some method) :
    before.Progresses live { before with toClassTable := before.modify id fun cls =>
      { cls with initState := .initializing } } (method :: live) := by
  have own := ClassTable.owner_of_initializer? closed.table known found
  have initializer :=
    ClassTable.isInitializer_of_initializer? closed.table orderly.ordered.table known found
  have all := initializing_cons before live method
  rw [if_pos initializer, own] at all
  have fresh : id ∉ before.initializing live := by
    apply orderly.notMem_of_state
    rw [state]
    nofun
  apply progresses_of_states closed closed' (before.growsTo_setState id .initializing)
    (orderly.ordered_setState (.inr prepared) .initializing)
  · intro other member
    rcases List.mem_cons.mp member with rfl | member
    · exact ClassTable.hasMethod_of_initializer? closed.table known found
    · exact orderly.linked other member
  · intro other member
    rcases List.mem_cons.mp member with rfl | member
    · rw [own]
      exact fun _ => found
    · exact orderly.own other member
  · rw [all]
    exact List.nodup_cons.mpr ⟨fresh, orderly.once⟩
  · rw [all]
    intro other member
    rcases List.mem_cons.mp member with rfl | member
    · rw [ClassTable.initState_setState known, if_pos rfl]
    · exact orderly.running_setState fresh .initializing other member
  · exact fun other known => ClassTable.leadsTo_setState (state ▸ .begin) known
  · rw [all]
    intro other member
    rcases List.mem_cons.mp member with rfl | member
    · exact .inr state
    · exact .inl member

end

/-- The frame of a method is left; an initializer settles its class and those that wait. -/
theorem progresses_finish {before : Registry} {left : List MethodId} {method : MethodId} (orderly : before.Orderly (method :: left))
    (initializer : (before.method method).isInitializer = true) {succeeded : Bool}
    (closed : before.Closed)
    (closed' : { before with
      toClassTable := before.finishInitialization method.owner succeeded }.Closed)
    (grows : before.GrowsTo (before.finishInitialization method.owner succeeded)) :
    before.Progresses (method :: left) { before with
      toClassTable := before.finishInitialization method.owner succeeded } left := by
  have among : ∀ {id : MethodId}, id ∈ left → id ∈ method :: left := .tail method
  have all := initializing_cons before left method
  rw [if_pos initializer] at all
  have once := orderly.once
  rw [all, List.nodup_cons] at once
  have running : ∀ id ∈ method.owner :: before.initializing left,
      (before.get id).initState = .initializing := by
    intro id member
    exact orderly.running id (all ▸ member)
  have waiting : ∀ id ∈ before.waiting method.owner, (before.get id).initState = .initializing := by
    intro id waits
    rcases ClassTable.of_mem_waiting waits with rfl | ⟨state, -⟩
    · exact running _ (.head _)
    · exact state
  have states : ∀ id, before.Has id →
      (before.get id).initState.LeadsTo
        ((before.finishInitialization method.owner succeeded).get id).initState := by
    intro id known
    rw [ClassTable.get_finishInitialization known]
    split
    next waits =>
        rw [waiting id waits]
        exact .single (InitState.next_endState succeeded)
    next => exact .refl
  apply progresses_of_states closed closed' grows
  · apply orderly.ordered.of_table grows
    apply orderly.ordered.table.restate (ClassTable.restates_finishInitialization _ _)
    intro id known begun
    refine .inl fun early => begun ?_
    rw [ClassTable.get_finishInitialization known]
    split
    next waits => cases early.symm.trans (waiting id waits)
    next => exact early
  · exact fun id member => orderly.linked id (among member)
  · exact fun id member => orderly.own id (among member)
  · exact once.2
  · intro id member
    obtain ⟨own, found, same, rfl⟩ := mem_initializing.mp member
    rw [ClassTable.get_finishInitialization (orderly.has_of_mem (among found))]
    split
    next waits =>
        rcases ClassTable.of_mem_waiting waits with same | ⟨-, none⟩
        · exact (once.1 (same ▸ member)).elim
        · cases none.symm.trans (orderly.own own (among found) same)
    next => exact running _ (.tail _ member)
  · exact states
  · exact fun id member => .inl (all ▸ .tail _ member)

end Orderly

namespace Progresses

variable {first second third : Registry} {early middle late : List MethodId}

theorem trans (grows : first.GrowsTo second.toClassTable)
    (left : first.Progresses early second middle) (right : second.Progresses middle third late) :
    first.Progresses early third late where
  orderly := right.orderly
  states id known := (left.states id known).trans (right.states id (grows.has known))
  launched id member known := by
    rcases right.launched id member (grows.has known) with running | state
    · exact left.launched id running known
    · have leads := left.states id known
      rw [state] at leads
      exact .inr (InitState.eq_uninitialized_of_leadsTo leads)

end Progresses

/-! ## Beginning -/

/-- Whether initialization has gone on with classes only whose initialization had not
begun. -/
structure Launches (before : Registry) (live : List MethodId) (after : Registry)
    (left : List MethodId) : Prop extends Progresses before live after left where
  kept : ∀ id, before.Has id → (before.get id).initState ≠ .uninitialized →
    (after.get id).initState = (before.get id).initState

namespace Launches

variable {first second third : Registry} {early middle late : List MethodId}

theorem trans (grows : first.GrowsTo second.toClassTable)
    (left : first.Launches early second middle) (right : second.Launches middle third late) :
    first.Launches early third late where
  toProgresses := left.toProgresses.trans grows right.toProgresses
  kept id known begun := by
    have same := left.kept id known begun
    rw [← same] at begun
    exact (right.kept id (grows.has known) begun).trans same

theorem of_rests (orderly : first.Orderly early) (closed : first.Closed) (closed' : second.Closed)
    (grows : first.GrowsTo second.toClassTable) (rests : first.Rests second) :
    first.Launches early second early where
  toProgresses := orderly.progresses_of_rests closed closed' grows rests (.refl early)
  kept id known _ := rests.table.state id known

/-- Initialization of a class begins, perhaps with a frame for its initializer. -/
theorem begin {id : ClassId} (orderly : first.Orderly early) (closed : first.Closed)
    (known : first.Has id) (state : (first.get id).initState = .uninitialized)
    (prepared : (first.get id).Prepared)
    (closed' : { first with toClassTable := first.modify id fun cls =>
      { cls with initState := .initializing } }.Closed)
    (frames : late = early ∨
      ∃ method, (first.get id).initializer? = some method ∧ late = method :: early) :
    first.Launches early { first with toClassTable := first.modify id fun cls =>
      { cls with initState := .initializing } } late := by
  constructor
  · rcases frames with rfl | ⟨method, found, rfl⟩
    · have fresh : id ∉ first.initializing late := by
        apply orderly.notMem_of_state
        rw [state]
        nofun
      exact orderly.progresses_setState closed closed' (state ▸ .begin) (.inr prepared) fresh
    · exact orderly.progresses_begin closed known state prepared closed' found
  · intro other known begun
    rw [ClassTable.initState_setState known]
    split
    next same => exact (begun (same ▸ state)).elim
    next => rfl

/-- What becomes of a class that has just begun and has no frame. -/
theorem settle {id : ClassId} {outcome : InitState} (launches : first.Launches early second middle)
    (grows : first.GrowsTo second.toClassTable) (closed : second.Closed)
    (state : (first.get id).initState = .uninitialized)
    (begun : (second.get id).initState = .initializing) (next : InitState.Next .initializing outcome)
    (absent : id ∉ second.initializing middle)
    (closed' : { second with toClassTable := second.modify id fun cls =>
      { cls with initState := outcome } }.Closed) :
    first.Launches early { second with toClassTable := second.modify id fun cls =>
      { cls with initState := outcome } } middle := by
  have started : (second.get id).initState ≠ .uninitialized := by
    rw [begun]
    nofun
  have settles := launches.orderly.progresses_setState closed closed' (begun ▸ next) (.inl started)
    absent
  constructor
  · exact launches.toProgresses.trans grows settles
  · intro other known' late
    rw [ClassTable.initState_setState (grows.has known')]
    split
    next same => exact (late (same ▸ state)).elim
    next => exact launches.kept other known' late

end Launches

end Registry

/-! ## Machines -/

namespace Stack.Chains

variable {stack : Stack} {table : ClassTable} {startSp : Nat} {saved : List SavedFrame}

/-- The methods of a chain are that of the innermost frame and those that were saved. -/
theorem map_method (chains : stack.Chains table startSp saved) (frame : Frame)
    (start : frame.startSp = startSp) :
    (frame.chain stack).map (·.method) = frame.method :: saved.filterMap (·.2.caller) := by
  induction chains generalizing frame with
  | @host startSp room host bottom =>
      rw [Frame.chain_of_host stack (Frame.caller?_of_host (start ▸ host))]
      simp only [List.map_singleton, List.filterMap_cons, host, List.filterMap_nil]
  | @caller startSp id callers called linked below chains ih =>
      have lower : (FrameContext.read stack startSp).callerStartSp < startSp :=
        Nat.lt_of_lt_of_le (Nat.lt_add_of_pos_right (by decide)) below
      subst start
      rw [Frame.chain_of_caller stack (Frame.caller?_of_caller called lower), List.map_cons,
        ih _ rfl]
      simp only [List.filterMap_cons, called]

end Stack.Chains

namespace Execution

/-- The methods of the live frames, innermost first. -/
def methods (exec : Execution) : List MethodId := exec.frames.map (·.method)

theorem methods_of_idle {exec : Execution} (idle : exec.method = none) : exec.methods = [] := by
  rw [methods, frames, Frame.all.eq_def, idle]
  rfl

theorem Stands.methods_eq {exec : Execution} {table : ClassTable} {saved : List SavedFrame}
    (stands : exec.Stands table saved) :
    exec.methods = exec.method.toList ++ saved.filterMap (·.2.caller) := by
  cases current : exec.method with
  | none =>
      rw [methods_of_idle current, (stands.idle current).1]
      rfl
  | some id =>
      rw [methods, frames, Frame.all.eq_def, current]
      exact (stands.chains id current).map_method _ rfl

end Execution

namespace Machine

/-- The methods of all live frames. -/
def methods (machine : Machine) : List MethodId :=
  (machine.exec :: machine.parked).flatMap Execution.methods

/-- The classes whose initializers have frames. -/
def initializing (machine : Machine) : List ClassId :=
  machine.registry.initializing machine.methods

/-- Whether the initialization of classes is in order. -/
def Orderly (machine : Machine) : Prop := machine.registry.Orderly machine.methods

/-- Whether initialization has stayed in order, and gone one way. -/
def Progresses (before after : Machine) : Prop :=
  before.registry.Progresses before.methods after.registry after.methods

/-- Whether initialization has gone on with classes only whose initialization had not
begun. -/
def Launches (before after : Machine) : Prop :=
  before.registry.Launches before.methods after.registry after.methods

theorem methods_eq (machine : Machine) :
    machine.methods = machine.exec.methods ++ machine.parked.flatMap Execution.methods :=
  List.flatMap_cons

section

variable {before after : Machine} {saved : List SavedFrame}

/-- Frames that are left alone are those of the same methods. -/
theorem methods_of_stands {table : ClassTable}
    (stands : before.exec.Stands before.registry.toClassTable saved)
    (stands' : after.exec.Stands table saved) (method : after.exec.method = before.exec.method)
    (parked : after.parked = before.parked) : after.methods = before.methods := by
  rw [methods_eq, methods_eq, stands.methods_eq, stands'.methods_eq, method, parked]

theorem Stays.methods_eq (stays : before.Stays after)
    (stands : before.exec.Stands before.registry.toClassTable saved) :
    after.methods = before.methods :=
  methods_of_stands stands (stands.congr stays.exec.method stays.exec.startSp stays.exec.stack)
    stays.exec.method stays.parked

theorem Calm.launches (calm : before.Calm after) (closed : before.Closed)
    (stands : before.exec.Stands before.registry.toClassTable saved) (orderly : before.Orderly) :
    before.Launches after := by
  rw [Launches, calm.methods_eq stands]
  exact .of_rests orderly closed.registry calm.closed.registry calm.grows calm.rests

end

end Machine

end Jvm
