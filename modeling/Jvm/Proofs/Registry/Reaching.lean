import Jvm.Proofs.Registry.Requests
import Jvm.Proofs.Registry.Types

/-!
# Interfaces that a class reaches

An interface is reached from a class by going up its superclass chain and then from
interface to superinterface, any number of times. Gathering finds just these: each is seen
once, and there is fuel for as many as there are classes.
-/

namespace Jvm.ClassTable

variable {table : ClassTable}

/-! ## The superclass chain -/

theorem superChain_eq_cons (table : ClassTable) (id : ClassId) :
    ∃ above, table.superChain id = id :: above := by
  rw [superChain]
  split
  · exact ⟨_, rfl⟩
  · exact ⟨_, rfl⟩

theorem mem_superChain_self (table : ClassTable) (id : ClassId) : id ∈ table.superChain id := by
  obtain ⟨above, chain⟩ := table.superChain_eq_cons id
  rw [chain]
  exact .head _

theorem index_le_of_mem_superChain {id above : ClassId} (member : above ∈ table.superChain id) :
    above.index ≤ id.index := by
  induction id using superChain.induct table with
  | case1 id last =>
      rw [superChain, last] at member
      cases List.mem_singleton.mp member
      exact Nat.le_refl _
  | case2 id next found ih =>
      rw [superChain, found] at member
      rcases List.mem_cons.mp member with rfl | member
      · exact Nat.le_refl _
      · exact Nat.le_trans (ih member) (Nat.le_of_lt (index_lt_of_superclass? found))

/-- No class is its own superclass, directly or through others. -/
theorem nodup_superChain (table : ClassTable) (id : ClassId) : (table.superChain id).Nodup := by
  induction id using superChain.induct table with
  | case1 id last =>
      rw [superChain, last]
      exact List.nodup_singleton id
  | case2 id next found ih =>
      rw [superChain, found]
      refine List.nodup_cons.mpr ⟨fun member => ?_, ih⟩
      have lower := index_lt_of_superclass? found
      exact Nat.not_lt_of_le (index_le_of_mem_superChain member) lower

/-! ## Superinterfaces -/

/-- Whether an interface is a direct superinterface of a class. -/
def Declares (table : ClassTable) (id iface : ClassId) : Prop := iface ∈ (table.get id).interfaces

/-- What is gathered is seen already or reached from the queue. -/
theorem reached_of_mem_gatherInterfaces {fuel : Nat} {queue seen : List ClassId} {iface : ClassId}
    (member : iface ∈ table.gatherInterfaces fuel queue seen) :
    iface ∈ seen ∨ ∃ id ∈ queue, Relation.ReflTransGen table.Declares id iface := by
  induction fuel, queue, seen using gatherInterfaces.induct table with
  | case1 fuel seen =>
      rw [gatherInterfaces.eq_def] at member
      exact .inl member
  | case2 fuel head queue seen known ih =>
      rw [gatherInterfaces.eq_def] at member
      simp only [if_pos known] at member
      refine (ih member).imp_right ?_
      rintro ⟨id, queued, reached⟩
      exact ⟨id, .tail _ queued, reached⟩
  | case3 head queue seen fresh =>
      rw [gatherInterfaces, if_neg fresh] at member
      exact .inl member
  | case4 head queue seen fresh fuel ih =>
      rw [gatherInterfaces, if_neg fresh] at member
      rcases ih member with old | ⟨id, queued, reached⟩
      · rcases List.mem_append.mp old with old | new
        · exact .inl old
        · cases List.mem_singleton.mp new
          exact .inr ⟨iface, .head _, .refl⟩
      · rcases List.mem_append.mp queued with later | declared
        · exact .inr ⟨id, .tail _ later, reached⟩
        · exact .inr ⟨head, .head _, .head declared reached⟩

/-- Whether a list of interfaces holds all superinterfaces of those in it, but for some that
are still queued. -/
def UpTo (table : ClassTable) (queue seen : List ClassId) : Prop :=
  ∀ id ∈ seen, ∀ iface, table.Declares id iface → iface ∈ seen ∨ iface ∈ queue

/-- What is gathered holds all that was queued and all superinterfaces. -/
theorem gathers {fuel : Nat} {queue seen : List ClassId}
    (inside : ∀ id, table.Has id → ∀ iface, table.Declares id iface → table.Has iface)
    (queued : ∀ id ∈ queue, table.Has id) (gathered : ∀ id ∈ seen, table.Has id)
    (distinct : seen.Nodup) (enough : table.size ≤ fuel + seen.length)
    (upTo : table.UpTo queue seen) :
    (∀ id ∈ seen ++ queue, id ∈ table.gatherInterfaces fuel queue seen) ∧
      table.UpTo [] (table.gatherInterfaces fuel queue seen) := by
  induction fuel, queue, seen using gatherInterfaces.induct table with
  | case1 fuel seen =>
      rw [gatherInterfaces.eq_def, List.append_nil]
      exact ⟨fun _ member => member, upTo⟩
  | case2 fuel head queue seen known ih =>
      rw [gatherInterfaces.eq_def]
      simp only [if_pos known]
      obtain ⟨held, further⟩ := ih (fun id later => queued id (.tail _ later)) gathered distinct
        enough fun id member iface declared => (upTo id member iface declared).elim .inl fun later =>
          (List.mem_cons.mp later).elim (fun same => .inl (same ▸ known)) .inr
      refine ⟨fun id member => ?_, further⟩
      rcases List.mem_append.mp member with old | new
      · exact held id (List.mem_append_left _ old)
      · rcases List.mem_cons.mp new with rfl | later
        · exact held id (List.mem_append_left _ known)
        · exact held id (List.mem_append_right _ later)
  | case3 head queue seen fresh =>
      have larger : (head :: seen).length ≤ table.size := by
        apply length_le_size (List.nodup_cons.mpr ⟨fresh, distinct⟩)
        exact List.forall_mem_cons.mpr ⟨queued head (.head _), gathered⟩
      rw [List.length_cons] at larger
      omega
  | case4 head queue seen fresh fuel ih =>
      rw [gatherInterfaces, if_neg fresh]
      have here := queued head (.head _)
      have members : ∀ id, id ∈ seen ++ [head] ++ (queue ++ (table.get head).interfaces) ↔
          (id ∈ seen ∨ id = head) ∨ id ∈ queue ∨ table.Declares head id := by
        simp [Declares, or_assoc]
      have queued' : ∀ id ∈ queue ++ (table.get head).interfaces, table.Has id := by
        intro id member
        rcases List.mem_append.mp member with old | new
        · exact queued id (.tail _ old)
        · exact inside head here id new
      have gathered' : ∀ id ∈ seen ++ [head], table.Has id := by
        intro id member
        rcases List.mem_append.mp member with old | new
        · exact gathered id old
        · exact List.mem_singleton.mp new ▸ here
      have distinct' : (seen ++ [head]).Nodup :=
        List.nodup_append.mpr ⟨distinct, List.nodup_singleton _, by
          rintro id old other new rfl
          exact fresh (List.mem_singleton.mp new ▸ old)⟩
      have enough' : table.size ≤ fuel + (seen ++ [head]).length := by
        rw [List.length_append, List.length_singleton]
        omega
      have upTo' : table.UpTo (queue ++ (table.get head).interfaces) (seen ++ [head]) := by
        intro id member iface declared
        rcases List.mem_append.mp member with old | new
        · rcases upTo id old iface declared with earlier | later
          · exact .inl (List.mem_append_left _ earlier)
          · rcases List.mem_cons.mp later with rfl | later
            · exact .inl (List.mem_append_right _ (.head _))
            · exact .inr (List.mem_append_left _ later)
        · cases List.mem_singleton.mp new
          exact .inr (List.mem_append_right _ declared)
      obtain ⟨held, further⟩ := ih queued' gathered' distinct' enough' upTo'
      refine ⟨fun id member => held id ((members id).mpr ?_), further⟩
      rw [List.mem_append, List.mem_cons] at member
      rcases member with old | same | later
      · exact .inl (.inl old)
      · exact .inl (.inr same)
      · exact .inr (.inl later)

/-- Gathering is exact: an interface is gathered if and only if it is reached. -/
theorem mem_gatherInterfaces_iff {queue : List ClassId}
    (inside : ∀ id, table.Has id → ∀ iface, table.Declares id iface → table.Has iface)
    (queued : ∀ id ∈ queue, table.Has id) (iface : ClassId) :
    iface ∈ table.gatherInterfaces table.size queue [] ↔
      ∃ id ∈ queue, Relation.ReflTransGen table.Declares id iface := by
  constructor
  · intro member
    exact (reached_of_mem_gatherInterfaces member).resolve_left List.not_mem_nil
  · rintro ⟨id, member, reached⟩
    obtain ⟨held, upTo⟩ := gathers inside queued (fun _ none => absurd none List.not_mem_nil)
      List.nodup_nil (Nat.le_add_right _ _) (fun _ none => absurd none List.not_mem_nil)
    induction reached with
    | refl => exact held id member
    | tail _ declared ih => exact (upTo _ ih _ declared).resolve_right List.not_mem_nil

/-- The interfaces of a class are those reached from one that its superclass chain names. -/
theorem mem_allInterfaces_iff
    (inside : ∀ id, table.Has id → ∀ iface, table.Declares id iface → table.Has iface)
    {id iface : ClassId} (known : table.Has id) :
    iface ∈ table.allInterfaces id ↔
      ∃ above ∈ table.superChain id, ∃ first, table.Declares above first ∧
        Relation.ReflTransGen table.Declares first iface := by
  rw [allInterfaces, mem_gatherInterfaces_iff inside]
  · constructor
    · rintro ⟨first, queued, reached⟩
      obtain ⟨above, member, declared⟩ := List.mem_flatMap.mp queued
      exact ⟨above, member, first, declared, reached⟩
    · rintro ⟨above, member, first, declared, reached⟩
      exact ⟨first, List.mem_flatMap.mpr ⟨above, member, declared⟩, reached⟩
  · intro first queued
    obtain ⟨above, member, declared⟩ := List.mem_flatMap.mp queued
    exact inside above (Nat.lt_of_le_of_lt (index_le_of_mem_superChain member) known) first declared

end Jvm.ClassTable
