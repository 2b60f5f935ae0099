import Jvm.Proofs.Changing.Caching

/-!
# Full heaps

An allocation fails if and only if what a machine reaches leaves no room for the new object
below the limit of its heap. How much else there is, and when collections are due, decides how
often it collects and not whether it succeeds: a collection leaves the bytes of what is reached,
and a second one finds the same reached.
-/

namespace Jvm

namespace Machine

variable {machine before after between : Machine}

/-! ## What is reached -/

open Classical in
/-- Bytes that the objects take which a machine reaches: those that are kept for ever, and those
whose handles are reached. -/
noncomputable def reachableBytes (machine : Machine) : Nat :=
  ((List.range machine.heap.objects.size).map fun index =>
    if ∃ object, machine.heap.objects.getD index none = some object ∧ machine.Spared index object
    then machine.heap.sizeAt index else 0).sum

/-- A collection leaves the bytes of what is reached. -/
theorem reachableBytes_eq_occupiedBytes (unmarked : machine.heap.Unmarked) :
    machine.reachableBytes = machine.collectGarbage.2.heap.occupiedBytes := by
  rw [collectGarbage_eq, Heap.occupiedBytes, Heap.size_objects_swept, reachableBytes]
  congr 2
  funext index
  rw [Heap.sizeAt_swept]
  have spares := spares_marks_iff unmarked index
  by_cases kept : machine.heap.spares machine.marks index = true
  · rw [if_pos kept, if_pos (spares.mp kept)]
  · rw [if_neg kept, if_neg (mt spares.mpr kept)]

theorem accounted_collectGarbage (accounted : machine.heap.Accounted) :
    machine.collectGarbage.2.heap.Accounted :=
  machine.heap_collectGarbage ▸ accounted.swept machine.marks

theorem usedBytes_collectGarbage (accounted : machine.heap.Accounted) :
    machine.collectGarbage.2.heap.usedBytes = machine.reachableBytes := by
  rw [reachableBytes_eq_occupiedBytes accounted.unmarked]
  exact (accounted_collectGarbage accounted).charged

/-- What is reached takes no more than what there is. -/
theorem reachableBytes_le_usedBytes (accounted : machine.heap.Accounted) :
    machine.reachableBytes ≤ machine.heap.usedBytes := by
  have bytes := machine.heap.bytesOf_unmarked_add_occupiedBytes machine.marks
  rw [reachableBytes_eq_occupiedBytes accounted.unmarked, heap_collectGarbage, accounted.charged,
    ← bytes]
  exact Nat.le_add_left _ _

section

variable (unmarked : machine.heap.Unmarked)

include unmarked

/-- Whatever names an object still names it after a collection. -/
theorem Names.collectGarbage {ref : Ref} (named : machine.Names ref) :
    machine.collectGarbage.2.Names ref := by
  refine named.of_heap (fun _ held => machine.pending_collectGarbage.symm ▸ held)
    (fun _ held => machine.pinned_collectGarbage.symm ▸ held) fun {index object} place kept => ?_
  have there : machine.heap.objects.getD index none = some object := by
    rw [Array.getD_eq_getD_getElem?, place, Option.getD_some]
  have left := (getD_objects_collectGarbage unmarked).mpr ⟨there, .inl kept⟩
  rw [Array.getD_eq_getD_getElem?, Option.getD_eq_iff] at left
  obtain left | ⟨_, ⟨⟩⟩ := left
  exact .sticky left kept

/-- A collection leaves what is reached within reach. -/
theorem reachable_collectGarbage {ref : Ref} (reached : machine.Reachable ref) :
    machine.collectGarbage.2.Reachable ref := by
  induction reached with
  | root named => exact .root (named.collectGarbage unmarked)
  | edge reached live held ih =>
      exact .edge ih ((get?_collectGarbage unmarked _ _).mpr ⟨live, reached⟩) held

theorem spared_collectGarbage {index : Nat} {object : Object}
    (spared : machine.Spared index object) : machine.collectGarbage.2.Spared index object :=
  spared.imp_right fun ⟨ref, place, reached⟩ =>
    ⟨ref, place, reachable_collectGarbage unmarked reached⟩

/-- What is reached takes the same bytes after a collection: all that is left is reached. -/
theorem reachableBytes_collectGarbage :
    machine.collectGarbage.2.reachableBytes = machine.reachableBytes := by
  rw [reachableBytes_eq_occupiedBytes unmarked, reachableBytes, Heap.occupiedBytes]
  congr 2
  funext index
  cases left : machine.collectGarbage.2.heap.objects.getD index none with
  | none => rw [Heap.sizeAt, left, Option.elim_none, ite_self]
  | some object =>
      have spared := ((getD_objects_collectGarbage unmarked).mp left).2
      exact if_pos ⟨object, rfl, spared_collectGarbage unmarked spared⟩

end

/-! ## Making room -/

/-- Whether a machine is what is left of another one after some collections: it reaches the same
objects, which are as they were, and there are no others than before. -/
structure Collected (before after : Machine) : Prop where
  aside : after = { before with heap := after.heap }
  limit : after.heap.limit = before.heap.limit
  allocated : after.heap.totalAllocated = before.heap.totalAllocated
  accounted : after.heap.Accounted
  held : ∀ {index object}, after.heap.objects.getD index none = some object →
    before.heap.objects.getD index none = some object
  spared : ∀ {index object}, before.Spared index object → after.Spared index object
  kept : ∀ {index object}, before.Spared index object →
    before.heap.objects.getD index none = some object →
    after.heap.objects.getD index none = some object
  bytes : after.reachableBytes = before.reachableBytes

namespace Collected

theorem refl (accounted : machine.heap.Accounted) : machine.Collected machine :=
  ⟨rfl, rfl, rfl, accounted, fun held => held, fun spared => spared, fun _ held => held, rfl⟩

theorem collectGarbage (collected : before.Collected after) :
    before.Collected after.collectGarbage.2 where
  aside := by
    rw [collectGarbage_eq, collected.aside]
  limit := after.limit_collectGarbage.trans collected.limit
  allocated := after.totalAllocated_collectGarbage.trans collected.allocated
  accounted := accounted_collectGarbage collected.accounted
  held left :=
    collected.held ((getD_objects_collectGarbage collected.accounted.unmarked).mp left).1
  spared spared := spared_collectGarbage collected.accounted.unmarked (collected.spared spared)
  kept spared held := (getD_objects_collectGarbage collected.accounted.unmarked).mpr
    ⟨collected.kept spared held, collected.spared spared⟩
  bytes := (reachableBytes_collectGarbage collected.accounted.unmarked).trans collected.bytes

end Collected

/-- Whether an object cannot be charged for so many bytes of contents, or does not fit below the
limit beside all that is reached. -/
def Exhausted (machine : Machine) (payload : Nat) : Prop :=
  UInt64.size ≤ payload + Object.headerSize ∨
    machine.heap.limit < machine.reachableBytes + (payload + Object.headerSize)

/-- What is thrown for a full heap: the error object, or a fatal error before there is one. -/
def outOfMemoryError (machine : Machine) : Throw :=
  machine.outOfMemory.elim (.fatal .outOfMemory) .exception

theorem ends_throwOutOfMemory_self {α : Type} {returned : α → Machine → Prop} :
    Ends Guest.throwOutOfMemory machine returned fun raised after =>
      raised = machine.outOfMemoryError ∧ after = machine := by
  rw [Guest.throwOutOfMemory, ends_bind, ends_get]
  split
  next ref held =>
    rw [ends_throw, outOfMemoryError, held]
    exact ⟨rfl, rfl⟩
  next absent =>
    rw [outOfMemoryError, absent]
    exact ends_throw.mpr ⟨rfl, rfl⟩

section

variable {payload : Nat}

/-- Where an object fits, it does so beside what is reached. -/
theorem not_exhausted_of_fits (collected : machine.Collected between)
    (small : payload + Object.headerSize < UInt64.size)
    (room : between.heap.fits (payload + Object.headerSize) = true) :
    ¬machine.Exhausted payload := by
  have reached := reachableBytes_le_usedBytes collected.accounted
  have fits : between.heap.usedBytes + (payload + Object.headerSize) ≤ between.heap.limit :=
    of_decide_eq_true room
  rw [collected.bytes] at reached
  rw [collected.limit] at fits
  rw [Exhausted]
  omega

/-- What does not fit after a collection does not fit beside what is reached. -/
theorem exhausted_of_not_fits (collected : machine.Collected between)
    (full : ¬between.collectGarbage.2.heap.fits (payload + Object.headerSize) = true) :
    machine.Exhausted payload := by
  have used := usedBytes_collectGarbage collected.accounted
  have beyond : ¬between.collectGarbage.2.heap.usedBytes + (payload + Object.headerSize) ≤
      between.collectGarbage.2.heap.limit := by simpa [Heap.fits] using full
  rw [used, collected.bytes, collected.collectGarbage.limit] at beyond
  exact .inr (Nat.lt_of_not_le beyond)

/-- Whether an allocation put an object into what was left after some collections. -/
def Inserted (machine : Machine) (make : Int32 → Object) (ref : Ref) (after : Machine) : Prop :=
  ∃ between hash drawn, machine.Collected between ∧
    ref = (Heap.insert { between.heap with drawn } (make hash)).1 ∧
    after = { between with heap := (Heap.insert { between.heap with drawn } (make hash)).2 }

theorem ends_insert (collected : machine.Collected between) (make : Int32 → Object)
    {thrown : Throw → Machine → Prop} :
    Ends (modifyGet fun machine =>
      let made := machine.heap.nextHash.2.insert (make machine.heap.nextHash.1)
      (made.1, { machine with heap := made.2 }) : Guest Ref) between
      (fun ref after => machine.Inserted make ref after) thrown := by
  obtain ⟨hash, drawn, next⟩ := between.heap.nextHash_eq
  rw [ends_modifyGet, next]
  exact ⟨between, hash, drawn, collected, rfl, rfl⟩

theorem ends_collectIfDue (accounted : machine.heap.Accounted) (size : Nat) :
    Ends (Guest.collectIfDue size) machine (fun _ after => machine.Collected after)
      fun _ _ => False := by
  have start := Collected.refl accounted
  rw [Guest.collectIfDue, ends_bind, ends_get]
  split
  · exact ends_bind.mpr (ends_modifyGet.mpr (ends_pure.mpr start.collectGarbage))
  · exact ends_pure.mpr start

/-- An allocation ends as the bytes of what is reached decide, however often it collects. -/
theorem ends_alloc_of_reachableBytes (accounted : machine.heap.Accounted) (payload : Nat)
    (make : Int32 → Object) :
    Ends (Guest.alloc payload make) machine
      (fun ref after => ¬machine.Exhausted payload ∧ machine.Inserted make ref after)
      fun raised after => machine.Exhausted payload ∧ raised = machine.outOfMemoryError ∧
        machine.Collected after := by
  rw [Guest.alloc, Heap.objectSize?]
  split
  next absent =>
    have large : UInt64.size ≤ payload + Object.headerSize := by
      split at absent
      · cases absent
      next large => exact Nat.le_of_not_lt large
    refine ends_throwOutOfMemory_self.mono (fun _ _ made => made) ?_
    rintro raised after ⟨rfl, rfl⟩
    exact ⟨.inl large, rfl, .refl accounted⟩
  next size charged =>
    obtain ⟨small, ⟨⟩⟩ := Option.ite_none_right_eq_some.mp charged
    rw [ends_bind]
    refine (ends_collectIfDue accounted _).mono (fun _ between collected => ?_)
      fun _ _ absurd => absurd.elim
    rw [ends_bind, ends_get]
    split
    next full =>
      have swept := collected.collectGarbage
      refine ends_bind.mpr (ends_modifyGet.mpr (ends_bind.mpr (ends_get.mpr ?_)))
      split
      next still =>
        have exhausted := exhausted_of_not_fits collected (by simpa using still)
        have same : between.collectGarbage.2.outOfMemoryError = machine.outOfMemoryError := by
          rw [swept.aside]
          rfl
        refine ends_bind.mpr (ends_throwOutOfMemory_self.mono (fun _ _ made => made) ?_)
        rintro raised after ⟨rfl, rfl⟩
        exact ⟨exhausted, same, swept⟩
      next room =>
        have free := not_exhausted_of_fits swept small (by simpa using room)
        exact (ends_insert swept make).mono (fun _ _ inserted => ⟨free, inserted⟩)
          fun _ _ thrown => thrown
    next room =>
      have free := not_exhausted_of_fits collected small (by simpa using room)
      exact (ends_insert collected make).mono (fun _ _ inserted => ⟨free, inserted⟩)
        fun _ _ thrown => thrown

/-- An allocation fails if and only if it has to. -/
theorem exists_alloc_eq_error_iff (accounted : machine.heap.Accounted) (make : Int32 → Object) :
    (∃ raised after, Guest.alloc payload make machine = .error raised after) ↔
      machine.Exhausted payload := by
  have ends := ends_alloc_of_reachableBytes accounted payload make
  constructor
  · rintro ⟨raised, after, ran⟩
    exact (ends_of_error ran ends).1
  · intro exhausted
    cases ran : Guest.alloc payload make machine with
    | ok ref after => exact absurd exhausted (ends_of_ok ran ends).1
    | error raised after => exact ⟨raised, after, rfl⟩

end

/-! ## When collections are due -/

/-- A machine that collects at other times. -/
def retune (machine : Machine) (threshold : Nat) (stress : Option UInt32) : Machine :=
  machine.modifyHeap fun heap => { heap with threshold, stress }

theorem Names.retune {ref : Ref} (named : machine.Names ref) (threshold : Nat)
    (stress : Option UInt32) : (machine.retune threshold stress).Names ref :=
  named.of_heap (fun _ held => held) (fun _ held => held) fun place kept => .sticky place kept

theorem reachable_retune {ref : Ref} (reached : machine.Reachable ref) (threshold : Nat)
    (stress : Option UInt32) : (machine.retune threshold stress).Reachable ref := by
  induction reached with
  | root named => exact .root (named.retune threshold stress)
  | edge _ live held ih => exact .edge ih live held

theorem reachableBytes_retune (threshold : Nat) (stress : Option UInt32) :
    (machine.retune threshold stress).reachableBytes = machine.reachableBytes := by
  have same : (machine.retune threshold stress).Reachable = machine.Reachable := by
    funext ref
    -- setting back what was set gives the machine itself
    exact propext
      ⟨fun reached => reachable_retune reached machine.heap.threshold machine.heap.stress,
        fun reached => reachable_retune reached threshold stress⟩
  have spared : (machine.retune threshold stress).Spared = machine.Spared := by
    funext index object
    rw [Spared, same, Spared]
  rw [reachableBytes, spared, reachableBytes]
  rfl

theorem exhausted_congr (limit : after.heap.limit = before.heap.limit)
    (bytes : after.reachableBytes = before.reachableBytes) (payload : Nat) :
    after.Exhausted payload ↔ before.Exhausted payload := by
  rw [Exhausted, Exhausted, limit, bytes]

/-- An allocation fails if and only if what is reached and the new object exceed the limit
together, or the new object every number of bytes. It then throws the error for this case; it
has put nothing into the heap, and every object that is reached is there as it was. Neither the
times at which collections are due nor garbage make a difference. The accounts of a heap are
right, and none of its objects is marked, at every moment of every run. -/
theorem alloc_fails_iff_exhausted (accounted : machine.heap.Accounted) (payload : Nat)
    (make : Int32 → Object) :
    ((∃ raised after, Guest.alloc payload make machine = .error raised after) ↔
      machine.Exhausted payload) ∧
    (∀ raised after, Guest.alloc payload make machine = .error raised after →
      raised = machine.outOfMemoryError ∧ after = { machine with heap := after.heap } ∧
        after.heap.totalAllocated = machine.heap.totalAllocated ∧
        (∀ index object, after.heap.objects.getD index none = some object →
          machine.heap.objects.getD index none = some object) ∧
        (∀ index object, object.sticky = true →
          machine.heap.objects.getD index none = some object →
          after.heap.objects.getD index none = some object) ∧
        ∀ ref object, machine.Reachable ref → machine.heap.get? ref = some object →
          after.heap.get? ref = some object) ∧
    (∀ threshold stress,
      (∃ raised after,
        Guest.alloc payload make (machine.retune threshold stress) = .error raised after) ↔
        machine.Exhausted payload) ∧
    ((∃ raised after, Guest.alloc payload make machine.collectGarbage.2 = .error raised after) ↔
      machine.Exhausted payload) ∧
    ∀ config classes origin later, start config classes = .ok origin →
      Relation.ReflTransGen Does origin later → later.heap.Accounted := by
  refine ⟨exists_alloc_eq_error_iff accounted make, ?_, ?_, ?_, ?_⟩
  · intro raised after ran
    obtain ⟨-, same, collected⟩ :=
      ends_of_error ran (ends_alloc_of_reachableBytes accounted payload make)
    exact ⟨same, collected.aside, collected.allocated, fun _ _ held => collected.held held,
      fun _ _ kept held => collected.kept (.inl kept) held,
      fun ref _ reached live => collected.kept (.inr ⟨ref, rfl, reached⟩) live⟩
  · intro threshold stress
    have retuned : (machine.retune threshold stress).heap.Accounted :=
      accounted.congr rfl rfl rfl
    have same : (machine.retune threshold stress).heap.limit = machine.heap.limit := rfl
    rw [exists_alloc_eq_error_iff retuned]
    exact exhausted_congr same (reachableBytes_retune threshold stress) payload
  · have swept := (Collected.refl accounted).collectGarbage
    rw [exists_alloc_eq_error_iff swept.accounted]
    exact exhausted_congr swept.limit swept.bytes payload
  · intro config classes origin later started run
    exact accounted_of_does started run

/-- A thousand bytes do not fit beside the two arrays that are reached. -/
theorem alloc_fails_iff_exhausted_ring : ∃ raised after,
    Guest.alloc 1000 (fun hash => { cls := ⟨0⟩, hash, body := .array (.refs #[]) }) ring =
      .error raised after := by
  have pinned : ring.Reachable (Ref.ofIndex 0) := .root (.pinned (by decide))
  have next : ring.Reachable (Ref.ofIndex 1) :=
    .edge pinned rfl (.element rfl (Array.mem_singleton.mpr rfl))
  have first : ∃ object, ring.heap.objects.getD 0 none = some object ∧ ring.Spared 0 object :=
    ⟨_, rfl, .inr ⟨_, rfl, pinned⟩⟩
  have second : ∃ object, ring.heap.objects.getD 1 none = some object ∧ ring.Spared 1 object :=
    ⟨_, rfl, .inr ⟨_, rfl, next⟩⟩
  have places : List.range ring.heap.objects.size = [0, 1, 2] := rfl
  have sizes : ring.heap.sizeAt 0 = 20 ∧ ring.heap.sizeAt 1 = 20 := by decide
  have bytes : 40 ≤ ring.reachableBytes := by
    rw [reachableBytes, places]
    simp only [List.map_cons, List.sum_cons, if_pos first, if_pos second, sizes]
    omega
  refine (alloc_fails_iff_exhausted accounted_ring 1000 _).1.mpr (.inr ?_)
  have limit : ring.heap.limit = 1024 := rfl
  have header : Object.headerSize = 16 := rfl
  omega

end Machine

end Jvm
