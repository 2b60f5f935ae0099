import Jvm.Proofs.Machine.Initialization

/-!
# Steps that make chains of frames longer or shorter

A step on behalf of the running execution adds frames to its chain or takes
frames off it, and leaves the frames in between as they are. Other executions
are left alone, but for those that the step creates. This holds as long as the
class ids have room in the saved contexts and class initializers take nothing off
the stack. Where frames stand, initialization stays in order, unless the step calls
an initializer as it would any method.
-/

namespace Jvm

/-! ## Tables whose methods fit the stack -/

/-- Whether the methods of a table have room in saved contexts, and its class
initializers take no arguments. -/
structure ClassTable.Fit (table : ClassTable) : Prop where
  encodable : table.size ≤ MethodId.encodableClasses
  initializers : ∀ id method, table.Has id → (table.get id).initializer? = some method →
    (table.method method).frameArgSlots = 0

namespace ClassTable

theorem frameArgSlots_bodiless (method : Method) :
    method.bodiless.frameArgSlots = method.frameArgSlots := rfl

theorem Fit.of_growsTo {before after : ClassTable} (fit : after.Fit)
    (closedBefore : before.Closed) (closedAfter : after.Closed) (grows : before.GrowsTo after) :
    before.Fit where
  encodable := Nat.le_trans grows.size fit.encodable
  initializers id method known found := by
    have later := grows.declaredMethod? closedBefore closedAfter known "<clinit>" "()V"
    have none := fit.initializers id method (grows.has known) (later.trans found)
    have linked := hasMethod_of_initializer? closedBefore known found
    rw [← frameArgSlots_bodiless, ← grows.bodiless_method linked.1, frameArgSlots_bodiless]
    exact none

/-- A table without further classes stays fit. -/
theorem Fit.grow {before after : ClassTable} (fit : before.Fit) (closedBefore : before.Closed)
    (closedAfter : after.Closed) (grows : before.GrowsTo after) (size : after.size = before.size) :
    after.Fit where
  encodable := size ▸ fit.encodable
  initializers id method known found := by
    have earlier : before.Has id := Nat.lt_of_lt_of_eq known size
    have same := grows.declaredMethod? closedBefore closedAfter earlier "<clinit>" "()V"
    have declared := same.symm.trans found
    have linked := hasMethod_of_initializer? closedBefore earlier declared
    have none := fit.initializers id method earlier declared
    rw [← frameArgSlots_bodiless, grows.bodiless_method linked.1, frameArgSlots_bodiless]
    exact none

/-- A linked method of a fit table is read back from its slot. -/
theorem Fit.encodable_of_hasMethod {table : ClassTable} (fit : table.Fit) {id : MethodId}
    (linked : table.HasMethod id) : id.Encodable :=
  MethodId.encodable_of_lt (Nat.lt_of_lt_of_le linked.1 fit.encodable)

end ClassTable

theorem Execution.Stands.untouched {exec after : Execution} {table : ClassTable}
    {saved : List SavedFrame} (stands : exec.Stands table saved) (same : exec.Untouched after) :
    after.Stands table saved :=
  stands.congr same.method same.startSp same.stack

namespace Machine

/-- What a step does to a machine, whatever it does to the frames of the running
execution. -/
structure Advances (before after : Machine) : Prop where
  grows : before.registry.GrowsTo after.registry.toClassTable
  closed : after.Closed
  config : after.config = before.config
  id : after.exec.id = before.exec.id
  parked : after.parked = before.parked
  nextExec : after.nextExec = before.nextExec

/-- Whether the frames of the running execution have stayed, perhaps with further
ones on top. -/
structure Heightens (before after : Machine) : Prop extends Advances before after where
  frames : after.registry.Fit → ∀ saved, before.exec.Stands before.registry.toClassTable saved →
    ∃ deeper, after.exec.Stands after.registry.toClassTable deeper ∧ saved <:+ deeper ∧
      before.exec.stack.Agrees after.exec.stack saved

/-- Whether the frames of the running execution have stayed, perhaps but for those on
top. -/
structure Lowers (before after : Machine) : Prop extends Advances before after where
  frames : after.registry.Fit → ∀ saved, before.exec.Stands before.registry.toClassTable saved →
    ∃ left, after.exec.Stands after.registry.toClassTable left ∧ left <:+ saved ∧
      before.exec.stack.Agrees after.exec.stack left

/-- Whether initialization has gone on along a relation, if it was in order and frames
stand. -/
def Governed (related : Machine → Machine → Prop) (before after : Machine) : Prop :=
  before.Closed → after.registry.Fit →
    ∀ saved, before.exec.Stands before.registry.toClassTable saved → before.Orderly →
      related before after

/-- Whether frames have come at most, and initialization has stayed in order if all calls
were plain. -/
structure Deepens (plain : Prop) (before after : Machine) : Prop
    extends Heightens before after where
  governs : plain → Governed Progresses before after

/-- Whether initializers have been started at most, each with its frame on top of the
others. -/
structure Begins (before after : Machine) : Prop extends Heightens before after where
  launches : Governed Launches before after

/-- Whether frames have gone at most, and initialization has stayed in order. -/
structure Shrinks (before after : Machine) : Prop extends Lowers before after where
  governs : Governed Progresses before after

section

variable {first second third : Machine}

/-- A machine whose classes have become more and still fit was fit before. -/
theorem fit_of_growsTo (closed : first.Closed) (closed' : second.Closed)
    (grows : first.registry.GrowsTo second.registry.toClassTable) (fit : second.registry.Fit) :
    first.registry.Fit :=
  fit.of_growsTo closed.registry.table closed'.registry.table grows

theorem Advances.trans (left : first.Advances second) (right : second.Advances third) :
    first.Advances third where
  grows := left.grows.trans right.grows
  closed := right.closed
  config := right.config.trans left.config
  id := right.id.trans left.id
  parked := right.parked.trans left.parked
  nextExec := right.nextExec.trans left.nextExec

theorem Governed.trans (left : Governed Progresses first second)
    (right : Governed Progresses second third) (closed : second.Closed)
    (fits : third.registry.Fit → second.registry.Fit)
    (grows : first.registry.GrowsTo second.registry.toClassTable)
    (stands : second.registry.Fit → ∀ saved,
      first.exec.Stands first.registry.toClassTable saved →
        ∃ middle, second.exec.Stands second.registry.toClassTable middle) :
    Governed Progresses first third := by
  intro closedFirst fit saved standing orderly
  have progress := left closedFirst (fits fit) saved standing orderly
  obtain ⟨middle, standing'⟩ := stands (fits fit) saved standing
  exact progress.trans grows (right closed fit middle standing' progress.orderly)

namespace Stays

variable (stays : first.Stays second)

include stays

theorem advances : first.Advances second :=
  ⟨stays.grows, stays.closed, stays.config, stays.exec.id, stays.parked, stays.nextExec⟩

theorem stands {saved : List SavedFrame}
    (stands : first.exec.Stands first.registry.toClassTable saved) :
    second.exec.Stands second.registry.toClassTable saved :=
  (stands.untouched stays.exec).grow stays.grows

theorem agrees (saved : List SavedFrame) : first.exec.stack.Agrees second.exec.stack saved := by
  rw [stays.exec.stack]
  exact .refl _ saved

theorem heightens : first.Heightens second where
  toAdvances := stays.advances
  frames _ saved stands := ⟨saved, stays.stands stands, List.suffix_rfl, stays.agrees saved⟩

theorem lowers : first.Lowers second where
  toAdvances := stays.advances
  frames _ saved stands := ⟨saved, stays.stands stands, List.suffix_rfl, stays.agrees saved⟩

end Stays

theorem Begins.deepens {plain : Prop} (begins : first.Begins second) : first.Deepens plain second where
  toHeightens := begins.toHeightens
  governs _ closed fit saved stands orderly :=
    (begins.launches closed fit saved stands orderly).toProgresses

namespace Calm

variable (calm : first.Calm second)

include calm

theorem begins : first.Begins second where
  toHeightens := calm.heightens
  launches closed _ _ stands orderly := calm.launches closed stands orderly

theorem deepens {plain : Prop} : first.Deepens plain second := calm.begins.deepens

theorem shrinks : first.Shrinks second where
  toLowers := calm.lowers
  governs closed _ _ stands orderly := (calm.launches closed stands orderly).toProgresses

end Calm

theorem Heightens.trans (left : first.Heightens second) (right : second.Heightens third) :
    first.Heightens third where
  toAdvances := left.toAdvances.trans right.toAdvances
  frames fit saved stands := by
    have fitBetween := fit_of_growsTo left.closed right.closed right.grows fit
    obtain ⟨middle, stands, below, same⟩ := left.frames fitBetween saved stands
    obtain ⟨deeper, stands, above, same'⟩ := right.frames fit middle stands
    exact ⟨deeper, stands, below.trans above, same.trans (same'.of_subset below.subset)⟩

theorem Lowers.trans (left : first.Lowers second) (right : second.Lowers third) :
    first.Lowers third where
  toAdvances := left.toAdvances.trans right.toAdvances
  frames fit saved stands := by
    have fitBetween := fit_of_growsTo left.closed right.closed right.grows fit
    obtain ⟨middle, stands, above, same⟩ := left.frames fitBetween saved stands
    obtain ⟨rest, stands, below, same'⟩ := right.frames fit middle stands
    exact ⟨rest, stands, below.trans above, (same.of_subset below.subset).trans same'⟩

theorem Deepens.trans {plain : Prop} (left : first.Deepens plain second)
    (right : second.Deepens plain third) : first.Deepens plain third where
  toHeightens := left.toHeightens.trans right.toHeightens
  governs calls := (left.governs calls).trans (right.governs calls) left.closed
    (fit_of_growsTo left.closed right.closed right.grows) left.grows fun fit saved stands => by
      obtain ⟨deeper, stands, -⟩ := left.frames fit saved stands
      exact ⟨deeper, stands⟩

theorem Begins.trans (left : first.Begins second) (right : second.Begins third) :
    first.Begins third where
  toHeightens := left.toHeightens.trans right.toHeightens
  launches closed fit saved stands orderly := by
    have fitBetween := fit_of_growsTo left.closed right.closed right.grows fit
    have launched := left.launches closed fitBetween saved stands orderly
    obtain ⟨middle, stands, -⟩ := left.frames fitBetween saved stands
    exact launched.trans left.grows
      (right.launches left.closed fit middle stands launched.orderly)

theorem Shrinks.trans (left : first.Shrinks second) (right : second.Shrinks third) :
    first.Shrinks third where
  toLowers := left.toLowers.trans right.toLowers
  governs := left.governs.trans right.governs left.closed
    (fit_of_growsTo left.closed right.closed right.grows) left.grows fun fit saved stands => by
      obtain ⟨rest, stands, -⟩ := left.frames fit saved stands
      exact ⟨rest, stands⟩

end

instance {plain : Prop} : Trans (Deepens plain) (Deepens plain) (Deepens plain) := ⟨Deepens.trans⟩

instance : Trans Calm Begins Begins := ⟨fun calm begins => calm.begins.trans begins⟩

instance : Trans Shrinks Shrinks Shrinks := ⟨Shrinks.trans⟩

instance {plain : Prop} : Trans Calm (Deepens plain) (Deepens plain) :=
  ⟨fun calm deepens => calm.deepens.trans deepens⟩

/-! ## New executions -/

/-- Whether the parked executions of a machine are those of an earlier one, but for one
that was created in between, under the next id and with frames that stand. -/
def Parks (before after : Machine) : Prop :=
  ∀ exec ∈ after.parked, (∃ old ∈ before.parked, old.Untouched exec) ∨
    exec.id = before.nextExec ∧
      (after.registry.Fit → ∃ saved, exec.Stands after.registry.toClassTable saved)

/-- Whether the frames of the running execution have stayed, perhaps with further
ones on top, while an execution may have been created; and initialization has stayed in
order if all calls were plain. -/
structure Extends (plain : Prop) (before after : Machine) : Prop where
  grows : before.registry.GrowsTo after.registry.toClassTable
  closed : after.Closed
  config : after.config = before.config
  id : after.exec.id = before.exec.id
  parked : before.Parks after
  frames : after.registry.Fit → ∀ saved, before.exec.Stands before.registry.toClassTable saved →
    ∃ deeper, after.exec.Stands after.registry.toClassTable deeper ∧ saved <:+ deeper ∧
      before.exec.stack.Agrees after.exec.stack saved
  governs : plain → Governed Progresses before after

section

variable {plain : Prop} {first second third : Machine}

theorem parks_of_eq (same : second.parked = first.parked) : first.Parks second := by
  intro exec member
  rw [same] at member
  exact .inl ⟨exec, member, .refl exec⟩

theorem Parks.before (parks : second.Parks third) (same : second.parked = first.parked)
    (next : second.nextExec = first.nextExec) : first.Parks third := by
  intro exec member
  rw [← same, ← next]
  exact parks exec member

theorem Parks.after (parks : first.Parks second)
    (kept : ∀ exec ∈ third.parked, ∃ old ∈ second.parked, old.Untouched exec)
    (grows : second.registry.GrowsTo third.registry.toClassTable)
    (fits : third.registry.Fit → second.registry.Fit) : first.Parks third := by
  intro exec member
  obtain ⟨old, kept, same⟩ := kept exec member
  rcases parks old kept with ⟨older, found, before⟩ | ⟨id, stands⟩
  · exact .inl ⟨older, found, before.trans same⟩
  · refine .inr ⟨same.id.trans id, ?_⟩
    intro fit
    obtain ⟨saved, stands⟩ := stands (fits fit)
    exact ⟨saved, (stands.untouched same).grow grows⟩

theorem Deepens.extends (deepens : first.Deepens plain second) : first.Extends plain second :=
  ⟨deepens.grows, deepens.closed, deepens.config, deepens.id, parks_of_eq deepens.parked,
    deepens.frames, deepens.governs⟩

theorem Calm.extends (calm : first.Calm second) : first.Extends plain second :=
  calm.deepens.extends

/-- Two extensions in a row are one where at most one of them creates an execution. -/
theorem Extends.trans_of_parks (left : first.Extends plain second)
    (right : second.Extends plain third) (parked : first.Parks third) :
    first.Extends plain third where
  grows := left.grows.trans right.grows
  closed := right.closed
  config := right.config.trans left.config
  id := right.id.trans left.id
  parked := parked
  frames fit saved stands := by
    have fitBetween := fit_of_growsTo left.closed right.closed right.grows fit
    obtain ⟨middle, stands, below, same⟩ := left.frames fitBetween saved stands
    obtain ⟨deeper, stands, above, same'⟩ := right.frames fit middle stands
    exact ⟨deeper, stands, below.trans above, same.trans (same'.of_subset below.subset)⟩
  governs calls := (left.governs calls).trans (right.governs calls) left.closed
    (fit_of_growsTo left.closed right.closed right.grows) left.grows fun fit saved stands => by
      obtain ⟨middle, stands, -⟩ := left.frames fit saved stands
      exact ⟨middle, stands⟩

theorem Deepens.trans_extends (left : first.Deepens plain second)
    (right : second.Extends plain third) : first.Extends plain third :=
  left.extends.trans_of_parks right (right.parked.before left.parked left.nextExec)

theorem Extends.trans_deepens (left : first.Extends plain second)
    (right : second.Deepens plain third) : first.Extends plain third := by
  refine left.trans_of_parks right.extends <| left.parked.after ?_ right.grows
    (fit_of_growsTo left.closed right.closed right.grows)
  intro exec member
  rw [right.parked] at member
  exact ⟨exec, member, .refl exec⟩

/-- Which calls are plain may depend on what a machine in order knows. -/
theorem Extends.of_ordered (extended : first.Extends (plain ∧ first.registry.Ordered) second) :
    first.Extends plain second where
  grows := extended.grows
  closed := extended.closed
  config := extended.config
  id := extended.id
  parked := extended.parked
  frames := extended.frames
  governs calls closed fit saved stands orderly :=
    extended.governs ⟨calls, orderly.ordered⟩ closed fit saved stands orderly

end

instance {plain : Prop} : Trans (Deepens plain) (Extends plain) (Extends plain) :=
  ⟨Deepens.trans_extends⟩

instance {plain : Prop} : Trans (Extends plain) (Deepens plain) (Extends plain) :=
  ⟨Extends.trans_deepens⟩

instance {plain : Prop} : Trans Calm (Extends plain) (Extends plain) :=
  ⟨fun calm extended => calm.deepens.trans_extends extended⟩

end Machine

namespace Moves

open Machine

variable {plain : Prop} {ε α β : Type} {machine : Machine} {returned : α → Machine → Prop}

theorem calm_deepens {step : EStateM ε Machine α} (moves : Moves Calm step machine returned) :
    Moves (Deepens plain) step machine returned :=
  moves.of_related fun _ calm => calm.deepens

theorem deepens_extends {step : EStateM ε Machine α}
    (moves : Moves (Deepens plain) step machine returned) :
    Moves (Extends plain) step machine returned :=
  moves.of_related fun _ deepens => deepens.extends

/-- A calm step before one that may add frames. -/
theorem calm_bind {step : EStateM ε Machine β} {next : β → EStateM ε Machine α}
    {between : β → Machine → Prop} (first : Moves Calm step machine between)
    (rest : ∀ value after, machine.Calm after → between value after →
      Moves (Deepens plain) (next value) after returned) :
    Moves (Deepens plain) (step >>= next) machine returned :=
  first.compose (Deepens plain) (fun _ _ calm => calm.deepens) rest

/-- A calm step before one that may create an execution. -/
theorem calm_bind_extends {step : EStateM ε Machine β} {next : β → EStateM ε Machine α}
    {between : β → Machine → Prop} (first : Moves Calm step machine between)
    (rest : ∀ value after, machine.Calm after → between value after →
      Moves (Extends plain) (next value) after returned) :
    Moves (Extends plain) (step >>= next) machine returned :=
  first.compose (Extends plain) (fun _ _ calm => calm.extends) rest

end Moves

end Jvm
