import Jvm.Proofs.Heap.Exhaustion

/-!
# What is retained while an exception is raised

To raise an exception, its class is linked, the exception is allocated and so is its message, and
what is not reached may be collected on the way. Whatever comes of it, what was reached is there
as it was before: the new objects are at handles that no object had, and only they are written.
-/

namespace Jvm

namespace Heap

/-- Whether every object that is kept for ever has a handle of its own. -/
def Addressed (heap : Heap) : Prop :=
  ∀ index object, heap.objects[index]? = some (some object) → object.sticky = true →
    index < handles

/-- There are handles for all places as long as they are as few as the limit has room for. -/
theorem Balanced.addressed {heap : Heap} (balanced : heap.Balanced)
    (small : heap.limit < handles * Object.headerSize) : heap.Addressed := by
  intro index object place _
  obtain ⟨inside, -⟩ := Array.getElem?_eq_some_iff.mp place
  have few := Nat.lt_of_mul_lt_mul_right (Nat.lt_of_le_of_lt balanced.places small)
  exact Nat.lt_trans inside few

/-- Such an object is that of the handle of its place. -/
theorem Addressed.get?_ofIndex {heap : Heap} (addressed : heap.Addressed) {index : Nat}
    {object : Object} (place : heap.objects[index]? = some (some object))
    (kept : object.sticky = true) : heap.get? (Ref.ofIndex index) = some object := by
  rw [get?, Ref.index_ofIndex (addressed index object place kept), Array.getD_eq_getD_getElem?,
    place, Option.getD_some]

end Heap

namespace Machine

variable {before between after machine : Machine} {ref : Ref} {object : Object}

/-- Whether the heap of a machine is in balance, below a limit that leaves a handle for each
object. -/
structure Spacious (machine : Machine) : Prop where
  balanced : machine.heap.Balanced
  small : machine.heap.limit < Heap.handles * Object.headerSize

namespace Spacious

theorem addressed (room : machine.Spacious) : machine.heap.Addressed :=
  room.balanced.addressed room.small

theorem places (room : machine.Spacious) : machine.heap.objects.size < Heap.handles :=
  Nat.lt_of_mul_lt_mul_right (Nat.lt_of_le_of_lt room.balanced.places room.small)

end Spacious

/-- Whether a machine has come from another one by new objects and classes and by collections. -/
structure Preserves (before after : Machine) : Prop where
  aside : after = { before with heap := after.heap, registry := after.registry }
  classes : before.registry.Prefixes after.registry.toClassTable
  objects : ∀ {ref object}, before.Reachable ref → before.heap.get? ref = some object →
    after.heap.get? ref = some object
  pending : ∀ ref ∈ before.heap.pending, ref ∈ after.heap.pending
  pinned : after.heap.pinned = before.heap.pinned
  limit : after.heap.limit = before.heap.limit
  balanced : after.heap.Balanced

/-- Whether a handle, if it is reached, is that of no live object. -/
def Vacant (machine : Machine) (ref : Ref) : Prop :=
  machine.Reachable ref → machine.heap.get? ref = none

namespace Preserves

theorem refl (room : machine.Spacious) : machine.Preserves machine :=
  ⟨rfl, .refl _, fun _ live => live, fun _ held => held, rfl, rfl, room.balanced⟩

theorem outOfMemory (preserves : before.Preserves after) :
    after.outOfMemory = before.outOfMemory := by
  rw [preserves.aside]

theorem outOfMemoryError (preserves : before.Preserves after) :
    after.outOfMemoryError = before.outOfMemoryError := by
  rw [Machine.outOfMemoryError, preserves.outOfMemory, Machine.outOfMemoryError]

theorem mem_classes {cls : Class} (preserves : before.Preserves after)
    (linked : cls ∈ before.registry.classes) : cls ∈ after.registry.classes := by
  obtain ⟨index, place⟩ := Array.mem_iff_getElem?.mp linked
  have there : before.registry.class? ⟨index⟩ = some cls := place
  exact Array.mem_iff_getElem?.mpr ⟨index, preserves.classes.class? there⟩

theorem holds (preserves : before.Preserves after)
    (held : object.Holds before.registry.toClassTable ref) :
    object.Holds after.registry.toClassTable ref := by
  cases held with
  | field body linked traced held => exact .field body (preserves.classes.class? linked) traced held
  | element body held => exact .element body held

section

variable (room : before.Spacious) (preserves : before.Preserves after)

include room preserves

theorem spacious : after.Spacious := by
  refine ⟨preserves.balanced, ?_⟩
  rw [preserves.limit]
  exact room.small

theorem names (named : before.Names ref) : after.Names ref := by
  have aside := preserves.aside
  cases named with
  | pending held => exact .pending (preserves.pending _ held)
  | pinned held => exact .pinned (preserves.pinned ▸ held)
  | sticky place kept =>
      have live := room.addressed.get?_ofIndex place kept
      exact names_of_sticky (preserves.objects (.root (.sticky place kept)) live) kept
  | interned canonical =>
      rw [aside]
      exact .interned canonical
  | cls linked held => exact .cls (preserves.mem_classes linked) held
  | outOfMemory held => exact .outOfMemory (preserves.outOfMemory.trans held)
  | running held =>
      rw [aside]
      exact .running held
  | parked waits held =>
      rw [aside]
      exact .parked waits held
  | completed kept =>
      rw [aside]
      exact .completed kept

theorem reachable (reached : before.Reachable ref) : after.Reachable ref := by
  induction reached with
  | root named => exact .root (preserves.names room named)
  | edge reached live held ih =>
      exact .edge ih (preserves.objects reached live) (preserves.holds held)

theorem vacant (vacant : after.Vacant ref) : before.Vacant ref := by
  intro reached
  by_contra held
  obtain ⟨object, live⟩ := Option.ne_none_iff_exists'.mp held
  cases (preserves.objects reached live).symm.trans (vacant (preserves.reachable room reached))

theorem trans {last : Machine} (later : after.Preserves last) : before.Preserves last where
  aside := later.aside.trans (congrArg (fun machine : Machine =>
    { machine with heap := last.heap, registry := last.registry }) preserves.aside)
  classes := preserves.classes.trans later.classes
  objects reached live := later.objects (preserves.reachable room reached)
    (preserves.objects reached live)
  pending _ held := later.pending _ (preserves.pending _ held)
  pinned := later.pinned.trans preserves.pinned
  limit := later.limit.trans preserves.limit
  balanced := later.balanced

end

theorem collectGarbage (room : machine.Spacious) : machine.Preserves machine.collectGarbage.2 where
  aside := rfl
  classes := .refl _
  objects reached live :=
    (get?_collectGarbage room.balanced.unmarked _ _).mpr ⟨live, reached⟩
  pending _ held := machine.pending_collectGarbage.symm ▸ held
  pinned := machine.pinned_collectGarbage
  limit := machine.limit_collectGarbage
  balanced := machine.heap_collectGarbage ▸ room.balanced.swept machine.marks

theorem insert (room : machine.Spacious) {object : Object} (drawn : Nat)
    (fits : machine.heap.fits object.size = true) (fresh : object.marked = false) :
    machine.Preserves
      { machine with heap := (Heap.insert { machine.heap with drawn } object).2 } where
  aside := rfl
  classes := .refl _
  objects _ live :=
    have seeded : Heap.Accounted { machine.heap with drawn } :=
      { room.balanced.toAccounted with }
    Heap.get?_insert_of_live seeded live object
  pending _ held := List.mem_cons_of_mem _ held
  pinned := rfl
  limit := rfl
  balanced :=
    have seeded : Heap.Balanced { machine.heap with drawn } := { room.balanced with }
    seeded.insert fits fresh

theorem load (room : machine.Spacious) (name : String) :
    machine.Preserves { machine with registry := (machine.registry.load name).2 } where
  aside := rfl
  classes := (machine.registry.prefixes_load name).1
  objects _ live := live
  pending _ held := held
  pinned := rfl
  limit := rfl
  balanced := room.balanced

/-- Only objects are written that were not there. -/
theorem modifyFields (preserves : before.Preserves between) (vacant : before.Vacant ref)
    {change : Fields → Fields} (size : ∀ fields, (change fields).size = fields.size) :
    before.Preserves (between.modifyHeap fun heap => heap.modifyFields ref change) where
  aside := by
    rw [modifyHeap, preserves.aside]
  classes := preserves.classes
  objects {other object} reached live := by
    have different : ref ≠ other := by
      rintro rfl
      cases live.symm.trans (vacant reached)
    change (between.heap.modify ref _).get? other = _
    rw [Heap.get?_modify, if_neg different]
    exact preserves.objects reached live
  pending := preserves.pending
  pinned := preserves.pinned
  limit := preserves.limit
  balanced :=
    have writes := Heap.Rewrites.modifyFields between.heap ref size
    Heap.Turn.balanced (.keeps writes.toSameShapes writes.toSameCounts) preserves.balanced

end Preserves

/-- Whether a machine gained a new object, which is kept for now. -/
structure Gains (before : Machine) (make : Int32 → Object) (ref : Ref) (after : Machine) :
    Prop where
  preserves : before.Preserves after
  registry : after.registry = before.registry
  vacant : before.Vacant ref
  pending : ref ∈ after.heap.pending
  live : ∃ hash, after.heap.get? ref = some (make hash)

/-- Whether a string was built of new objects: an array with its bytes, and an instance whose
fields were written then. -/
structure Builds (before : Machine) (bytes : List Int8) (coder : Int8) (string : Ref)
    (after : Machine) : Prop where
  preserves : before.Preserves after
  registry : after.registry = before.registry
  written : ∃ (between : Machine) (value : Ref) (hash : Int32),
    between.registry = before.registry ∧ between.known = before.known ∧
    between.heap.get? string = some
      { cls := before.known.string, hash
        body := .instance (Fields.ofSize (before.cls before.known.string).instanceSlots.toNat) } ∧
    between.heap.array? value = some (.bytes bytes.toArray) ∧
    after = between.modifyHeap fun heap => heap.modifyFields string fun fields =>
      (fields.setRef before.known.stringValue (some value)).setInt before.known.stringCoder
        coder.toInt32

/-- What is thrown by a step that builds objects, if the heap is full. -/
structure FailsBuilding (before : Machine) (raised : Throw) (after : Machine) : Prop where
  preserves : before.Preserves after
  thrown : raised = before.outOfMemoryError

theorem Preserves.fails {raised : Throw} (room : before.Spacious)
    (preserves : before.Preserves between)
    (fails : between.FailsBuilding raised after) : before.FailsBuilding raised after :=
  ⟨preserves.trans room fails.preserves, preserves.outOfMemoryError ▸ fails.thrown⟩

/-- What is thrown while an exception is made, if something goes wrong: the heap is full, or the
class of the exception does not load. -/
structure FailsRaising (before : Machine) (className : String) (raised : Throw) (after : Machine) :
    Prop where
  preserves : before.Preserves after
  thrown : raised = before.outOfMemoryError ∨
    ∃ error, (before.registry.load className).1 = .error error ∧ raised = .fatal (.load error)

theorem FailsBuilding.raising {raised : Throw} (fails : before.FailsBuilding raised after)
    (className : String) : before.FailsRaising className raised after :=
  ⟨fails.preserves, .inl fails.thrown⟩

/-- Whether an exception was raised, of the class that its kind names, unless something went wrong
while it was made. -/
structure Raised (before : Machine) (kind : ExceptionKind) (raised : Throw) (after : Machine) :
    Prop where
  preserves : before.Preserves after
  thrown : (∃ ref id, raised = .exception ref ∧ after.registry.find? kind.className = some id ∧
      after.heap.class? ref = some id) ∨
    raised = before.outOfMemoryError ∨ ∃ error, raised = .fatal (.load error)

end Machine

namespace Guest

variable {machine : Machine} {payload : Nat} {make : Int32 → Object}

/-- An allocation throws for a full heap only, and gains an object otherwise. -/
theorem ends_alloc_of_spacious (sized : ∀ hash, (make hash).payload = payload)
    (fresh : ∀ hash, (make hash).marked = false) (room : machine.Spacious) :
    Ends (alloc payload make) machine (machine.Gains make) machine.FailsBuilding := by
  have throws := Machine.ends_alloc_of_reachableBytes room.balanced.toAccounted payload make
  have gains : Ends (alloc payload make) machine (machine.Gains make) fun _ after =>
      machine.Preserves after ∧ after.registry = machine.registry := by
    refine ends_alloc sized ⟨.refl room, rfl⟩ (fun here => ?_) ?_
    · exact ⟨here.1.trans room (.collectGarbage (here.1.spacious room)), here.2⟩
    · rintro between hash drawn ⟨preserves, registry⟩ fits
      have here := preserves.spacious room
      have inserts := Machine.Preserves.insert here drawn fits (fresh hash)
      have seeded : Heap.Accounted { between.heap with drawn } :=
        { here.balanced.toAccounted with }
      obtain ⟨fresh, live⟩ := Heap.get?_insert seeded (make hash) here.places
      exact ⟨preserves.trans room inserts, registry, preserves.vacant room fun _ => fresh,
        List.mem_cons_self, hash, live⟩
  exact (gains.and throws).mono (fun _ _ ended => ended.1)
    fun _ _ ended => ⟨ended.1.1, ended.2.2.1⟩

theorem ends_newArrayOf_of_spacious (room : machine.Spacious) (id : ClassId) (data : ArrayData) :
    Ends (newArrayOf id data) machine
      (machine.Gains fun hash => { cls := id, hash, body := .array data }) machine.FailsBuilding :=
  ends_alloc_of_spacious (fun _ => rfl) (fun _ => rfl) room

theorem ends_newInstance_of_spacious (room : machine.Spacious) (id : ClassId) :
    Ends (newInstance id) machine
      (machine.Gains fun hash =>
        { cls := id, hash, body := .instance (Fields.ofSize (machine.cls id).instanceSlots.toNat) })
      machine.FailsBuilding := by
  rw [newInstance, ends_bind, ends_get]
  refine ends_alloc_of_spacious (fun hash => ?_) (fun _ => rfl) room
  exact congrArg (· * 4) (Fields.size_ofSize _)

/-- A string is built of new objects. -/
theorem ends_newCompactString_of_spacious (room : machine.Spacious) (bytes : List Int8)
    (coder : Int8) :
    Ends (newCompactString bytes coder) machine (machine.Builds bytes coder)
      machine.FailsBuilding := by
  rw [newCompactString, ends_bind, ends_get, ends_bind]
  refine (ends_newArrayOf_of_spacious room _ _).mono (fun value between first => ?_)
    fun _ _ fails => fails
  rw [ends_bind]
  have here := first.preserves.spacious room
  refine (ends_newInstance_of_spacious here _).mono (fun string after second => ?_)
    fun _ _ fails => first.preserves.fails room fails
  obtain ⟨_, array⟩ := first.live
  obtain ⟨hash, blank⟩ := second.live
  have kept := second.preserves.objects (.root (.pending first.pending)) array
  have registry := second.registry.trans first.registry
  have both := first.preserves.trans room second.preserves
  refine ends_bind.mpr (ends_modify.mpr (ends_pure.mpr ⟨?_, registry, ?_⟩))
  · refine both.modifyFields (first.preserves.vacant room second.vacant) fun fields => ?_
    rw [Fields.setInt, Fields.setRef, Fields.size_set, Fields.size_set]
  · rw [Machine.cls, first.registry] at blank
    exact ⟨after, value, hash, registry, by rw [both.aside], blank,
      Option.bind_eq_some_iff.mpr ⟨_, kept, rfl⟩, rfl⟩

theorem ends_newString_of_spacious (room : machine.Spacious) (text : String) :
    Ends (newString text) machine
      (fun _ after => machine.Preserves after ∧ after.registry = machine.registry)
      machine.FailsBuilding :=
  (ends_newCompactString_of_spacious room _ _).mono
    (fun _ _ built => ⟨built.preserves, built.registry⟩) fun _ _ fails => fails

theorem run_loadRaw (name : String) (machine : Machine) : loadRaw name machine =
    .ok (machine.registry.load name).1
      { machine with registry := (machine.registry.load name).2 } :=
  rfl

/-- A throwable is a new object of its class. -/
theorem ends_newThrowable_of_spacious (room : machine.Spacious) (className : String)
    (message : Option String) :
    Ends (newThrowable className message) machine
      (fun ref after => machine.Preserves after ∧ ∃ id, after.registry.find? className = some id ∧
        after.heap.class? ref = some id)
      (machine.FailsRaising className) := by
  have linked := Machine.Preserves.load room className
  have found := (machine.registry.prefixes_load className).2
  have here := linked.spacious room
  rw [newThrowable, ends_bind]
  refine Ends.of_ok (run_loadRaw className machine) ?_
  rw [ends_bind]
  cases loaded : (machine.registry.load className).1 with
  | error error => exact ends_throw.mpr ⟨linked, .inr ⟨error, loaded, rfl⟩⟩
  | ok id =>
      rw [ofLoad.eq_def, ends_pure, ends_bind]
      refine (ends_newInstance_of_spacious here id).mono (fun ref between gains => ?_)
        fun _ _ fails => (linked.fails room fails).raising className
      obtain ⟨hash, live⟩ := gains.live
      have preserves := linked.trans room gains.preserves
      have named : between.registry.find? className = some id := by
        rw [gains.registry]
        exact found id loaded
      cases message with
      | none => exact ends_pure.mpr ⟨preserves, id, named, congrArg (Option.map _) live⟩
      | some message =>
          have fresh := linked.vacant room gains.vacant
          rw [ends_bind]
          refine (ends_newString_of_spacious (preserves.spacious room) message).mono
            (fun text after built => ?_)
            fun _ _ fails => (preserves.fails room fails).raising className
          have kept := built.1.objects (.root (.pending gains.pending)) live
          refine ends_bind.mpr (ends_modify.mpr (ends_pure.mpr ⟨?_, id, ?_, ?_⟩))
          · refine (preserves.trans room built.1).modifyFields fresh fun fields => ?_
            rw [Fields.setRef, Fields.size_set]
          · exact (congrArg (·.find? className) built.2).trans named
          · exact (Heap.class?_modify _ _ _ fun object => object.cls_modifyFields).trans
              (congrArg (Option.map _) kept)

/-- Raising an exception never returns. It ends with an exception of the class that the kind names,
unless something goes wrong while it is made. -/
theorem ends_raise_of_spacious {α : Type} (room : machine.Spacious) (kind : ExceptionKind)
    (message : Option String) :
    Ends (raise kind message : Guest α) machine (fun _ _ => False) fun raised after =>
      (machine.Preserves after ∧ ∃ ref id, raised = .exception ref ∧
        after.registry.find? kind.className = some id ∧ after.heap.class? ref = some id) ∨
      machine.FailsRaising kind.className raised after := by
  rw [raise, ends_bind]
  refine (ends_newThrowable_of_spacious room _ message).mono (fun ref after made => ?_)
    fun _ _ fails => .inr fails
  obtain ⟨preserves, id, named, cls⟩ := made
  exact ends_throw.mpr (.inl ⟨preserves, ref, id, rfl, named, cls⟩)

theorem exists_raise {α : Type} (room : machine.Spacious) (kind : ExceptionKind)
    (message : Option String) : ∃ raised after,
    (raise kind message : Guest α) machine = .error raised after ∧
      machine.Raised kind raised after := by
  have ends := ends_raise_of_spacious (α := α) room kind message
  cases ran : (raise kind message : Guest α) machine with
  | ok value after => exact (ends_of_ok ran ends).elim
  | error raised after =>
      refine ⟨raised, after, rfl, ?_⟩
      rcases ends_of_error ran ends with ⟨preserves, made⟩ | fails
      · exact ⟨preserves, .inl made⟩
      · exact ⟨fails.preserves, .inr (fails.thrown.imp_right fun ⟨error, _, same⟩ => ⟨error, same⟩)⟩

end Guest

end Jvm
