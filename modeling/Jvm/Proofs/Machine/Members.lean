import Jvm.Machine.Step
import Jvm.Proofs.Machine.Invocation

/-!
# Instructions on arrays, members and types

Each of these instructions leaves the frames below it alone, whatever it loads,
initializes, calls or throws on the way, if the current frame holds the operands
that it takes.
-/

namespace Jvm

/-!
## What instructions take off the stack

No instruction checks that its operands are there. Most take a number of slots
that their own bytes tell; for a call and for a store to a field, the number is
that of the member which the constant resolves to. It is found by running as far
as the instruction itself does before it takes anything.
-/

/-- Slots that an instruction takes, but for those that depend on a member. -/
def Instr.slots : Instr → Nat
  | .store transfer _ => transfer.slots
  | .arrayLoad => 2
  | .arrayStore kind => (Guest.storedKind kind).slots + 2
  | .discard count => count
  | .dup count skip => count + skip
  | .swap | .intOp _ | .intShift _ | .floatOp _ | .compareFloat _ => 2
  | .longShift _ => 3
  | .longOp _ | .doubleOp _ | .compareLong | .compareDouble _ => 4
  | .negate kind | .leave (some kind) => kind.slots
  | .convert conversion => conversion.slots
  | .branch condition => condition.slots
  | .newMultiArray _ dimensions => dimensions.toNat
  | .tableSwitch | .lookupSwitch | .getField _ | .newArray _ | .newRefArray _ | .arrayLength
  | .throwRef | .instanceOf _ | .enterMonitor | .exitMonitor => 1
  | _ => 0

namespace Guest

/-- Slots that an instruction of a method takes. -/
def operands (id : MethodId) (instr : Instr) : Guest Nat := do
  match instr with
  | .putStatic index => do pure (← resolveField id.owner index).kind.slots
  | .putField index => do pure ((← resolveField id.owner index).kind.slots + 1)
  | .invoke mode index => do
    let resolved ← resolveMethod id.owner index
    match (← get).exec.stack.peekRef (resolved.argSlots.toNat - 1) with
    | none => pure 0
    | some receiver => do
      let target ← selectTarget mode receiver resolved.method
      pure ((← get).method target).frameArgSlots.toNat
  | .invokeStatic index => do
    let resolved ← resolveMethod id.owner index
    pure ((← get).method resolved.method).frameArgSlots.toNat
  | instr => pure instr.slots

/-- The method that an instruction of a method names, if it is a call. -/
def callee (id : MethodId) (instr : Instr) : Guest (Option MethodId) := do
  match instr with
  | .invoke _ index | .invokeStatic index =>
    pure (some (← resolveMethod id.owner index).method)
  | _ => pure none

/-- What is asked of the instruction with a first byte, if one starts with it. -/
def askedAt {α : Type} (otherwise : α) (ask : MethodId → UInt32 → Instr → Guest α)
    (id : MethodId) (code : Array UInt8) (pc : UInt32) (byte : UInt8) : Guest α := do
  match Opcode.ofByte byte with
  | none => pure otherwise
  | some opcode => do
    let (instr, _) ← ofDecode id (Instr.decode code pc opcode)
    ask id pc instr

/-- What is asked of the instruction at the current pc. It is found as a step finds it. -/
def askedNext {α : Type} (otherwise : α) (ask : MethodId → UInt32 → Instr → Guest α) :
    Guest α := do
  let machine ← get
  match machine.exec.method with
  | none => pure otherwise
  | some id => do
    let pc := machine.exec.pc
    let code := (machine.method id).code.elim #[] (·.bytecode)
    let byte ← ofDecode id (Bytecode.byte code pc)
    match ← fetch id pc byte with
    | none => pure otherwise
    | some byte => askedAt otherwise ask id code pc byte

/-- Slots that the instruction at the current pc takes. -/
def demand : Guest Nat := askedNext 0 fun id _ instr => operands id instr

/-- The method that the instruction at the current pc names, if it is a call. -/
def named : Guest (Option MethodId) := askedNext none fun id _ instr => callee id instr

end Guest

/-- Whether a method that was named is no class initializer. -/
def Machine.Ordinary (machine : Machine) (named : Option MethodId) : Prop :=
  ∀ id, named = some id → (machine.method id).isInitializer = false

/-! ## Operands of the current frame -/

/-- Whether an execution is in a frame of a method, with so many operands at least. -/
structure Execution.Holds (exec : Execution) (id : MethodId) (count : Nat) : Prop where
  busy : exec.method = some id
  room : exec.startSp + 1 + count ≤ exec.stack.sp

namespace Execution.Holds

variable {exec : Execution} {id : MethodId} {count : Nat}

theorem floor (holds : exec.Holds id count) : exec.startSp + 1 ≤ exec.stack.sp :=
  Nat.le_of_add_right_le holds.room

theorem of_le (holds : exec.Holds id count) {fewer : Nat} (le : fewer ≤ count) :
    exec.Holds id fewer :=
  ⟨holds.busy, Nat.le_trans (Nat.add_le_add_left le _) holds.room⟩

theorem untouched (holds : exec.Holds id count) {after : Execution} (same : exec.Untouched after) :
    after.Holds id count where
  busy := same.method.trans holds.busy
  room := by
    rw [same.startSp, same.stack]
    exact holds.room

end Execution.Holds

theorem Execution.Offers.holds {exec : Execution} {count : Nat} (offers : exec.Offers count)
    {id : MethodId} (busy : exec.method = some id) : exec.Holds id count :=
  ⟨busy, offers id busy⟩

theorem Machine.Stays.holds {before after : Machine} (stays : before.Stays after) {id : MethodId}
    {count : Nat} (holds : before.exec.Holds id count) : after.exec.Holds id count :=
  holds.untouched stays.exec

namespace Guest

open Machine

variable {plain : Prop} {α : Type} {machine : Machine} (closed : machine.Closed) {id : MethodId} {count : Nat}

include closed

/-- A change above the start of the current frame. -/
theorem deepens_above {change : Execution → Execution}
    (same : (change machine.exec).id = machine.exec.id)
    (method : (change machine.exec).method = machine.exec.method)
    (startSp : (change machine.exec).startSp = machine.exec.startSp)
    (keeps : machine.exec.stack.Keeps (machine.exec.startSp + 1) (change machine.exec).stack) :
    machine.Deepens plain (machine.modifyExec change) :=
  deepens_of_keeps closed same method startSp keeps.limit fun _ _ _ => keeps

theorem deepens_onStack (busy : machine.exec.method = some id) {change : Stack → Stack}
    (keeps : machine.exec.stack.Keeps (machine.exec.startSp + 1) (change machine.exec.stack)) :
    Moves (Deepens plain) (onStack change) machine fun _ after => after.exec.Holds id 0 := by
  have deepens : machine.Deepens plain (machine.modifyStack change) :=
    deepens_above closed rfl rfl rfl keeps
  exact Moves.modify deepens ⟨busy, keeps.room⟩

theorem deepens_pushValue (holds : machine.exec.Holds id 0) (value : Value) :
    Moves (Deepens plain) (onStack fun stack => stack.pushValue value) machine
      fun _ after => after.exec.Holds id 0 :=
  deepens_onStack closed holds.busy (Stack.keeps_pushValue holds.room value)

/-- What is taken off the stack are operands of the current frame. -/
theorem deepens_fromStack {left : Nat} (holds : machine.exec.Holds id (left + count))
    {take : Stack → α × Stack}
    (keeps : machine.exec.stack.Keeps (machine.exec.startSp + 1) (take machine.exec.stack).2)
    (sp : (take machine.exec.stack).2.sp = machine.exec.stack.sp - count) :
    Moves (Deepens plain) (fromStack take) machine fun _ after => after.exec.Holds id left := by
  have room := holds.room
  have deepens : machine.Deepens plain (machine.modifyStack fun _ => (take machine.exec.stack).2) :=
    deepens_above closed rfl rfl rfl keeps
  refine Moves.of_ok rfl deepens ⟨holds.busy, ?_⟩
  change machine.exec.startSp + 1 + left ≤ (take machine.exec.stack).2.sp
  rw [sp]
  omega

theorem deepens_pop {left : Nat} (holds : machine.exec.Holds id (left + 1)) :
    Moves (Deepens plain) (fromStack Stack.pop) machine fun _ after => after.exec.Holds id left :=
  deepens_fromStack closed holds
    (Stack.keeps_pop (holds.of_le (Nat.le_add_left 1 left)).room) Stack.sp_pop

theorem deepens_popRef {left : Nat} (holds : machine.exec.Holds id (left + 1)) :
    Moves (Deepens plain) (fromStack Stack.popRef) machine fun _ after => after.exec.Holds id left :=
  deepens_fromStack closed holds
    (Stack.keeps_popRef (holds.of_le (Nat.le_add_left 1 left)).room) Stack.sp_popRef

theorem deepens_popValue {left : Nat} {kind : Kind}
    (holds : machine.exec.Holds id (left + kind.slots)) :
    Moves (Deepens plain) (fromStack fun stack => stack.popValue kind) machine
      fun _ after => after.exec.Holds id left :=
  deepens_fromStack closed holds
    (Stack.keeps_popValue (holds.of_le (Nat.le_add_left kind.slots left)).room)
    (Stack.sp_popValue kind)

theorem calm_proceed (pc : UInt32) : Moves Calm (proceed pc) machine fun _ _ => True := by
  have moved : machine.Calm (machine.modifyExec fun exec => { exec with pc }) :=
    closed.calm_modifyExec ⟨rfl, rfl, rfl, rfl⟩
  exact Moves.modify_bind moved (Moves.pure moved.closed.calm_refl trivial)

theorem deepens_compute {change : Stack → Stack}
    (keeps : machine.exec.stack.Keeps (machine.exec.startSp + 1) (change machine.exec.stack))
    (next : UInt32) : Moves (Deepens plain) (compute next change) machine fun _ _ => True := by
  have deepens : machine.Deepens plain (machine.modifyExec fun exec =>
      { exec with stack := change exec.stack, pc := next }) :=
    deepens_above closed rfl rfl rfl keeps
  exact Moves.modify_bind deepens (Moves.pure deepens.closed.calm_refl.deepens trivial)

/-- An instruction that pushes its result last. -/
theorem deepens_pushResult (holds : machine.exec.Holds id 0) (value : Value) (next : UInt32) :
    Moves (Deepens plain) (do
      onStack fun stack => stack.pushValue value
      proceed next) machine fun _ _ => True := by
  refine (deepens_pushValue closed holds value).bind ?_
  exact fun _ _ deepens _ => (calm_proceed deepens.closed next).calm_deepens

end Guest

end Jvm

/-! ## Frames below are left alone -/

namespace Jvm.Guest

open Machine

variable {plain : Prop} {α β : Type} {machine : Machine} (closed : machine.Closed) {current : MethodId}

include closed

/-! ## Arrays -/

theorem deepens_arrayOperands {left : Nat} (holds : machine.exec.Holds current (left + 2))
    (action : String) :
    Moves (Deepens plain) (arrayOperands action) machine fun _ after => after.exec.Holds current left := by
  refine (deepens_pop closed holds).bind ?_
  intro slot first popped holds
  refine (deepens_popRef popped.closed holds).bind ?_
  intro array second taken holds
  cases array with
  | none => exact (calm_raiseNull taken.closed _).calm_deepens
  | some array =>
      refine Moves.get_bind ?_
      split
      · exact (calm_fault taken.closed _).calm_deepens
      · dsimp only
        split
        · exact (calm_raise taken.closed _ _).calm_deepens
        · exact Moves.pure taken.closed.calm_refl.deepens holds

theorem deepens_loadElement (holds : machine.exec.Holds current 2) :
    Moves (Deepens plain) loadElement machine fun _ _ => True := by
  refine (deepens_arrayOperands closed holds "load from").bind ?_
  rintro ⟨array, index⟩ first checked holds
  have reads : Moves Calm (require (first.heap.array? array) (.notArray array)) first
      fun _ _ => True := calm_require checked.closed _ fun _ _ => trivial
  refine Moves.get_bind (reads.calm_bind ?_)
  intro data second found _
  have indexed : Moves Calm (require (data.get? index) (.notArray array)) second
      fun _ _ => True := calm_require found.closed _ fun _ _ => trivial
  refine indexed.calm_bind ?_
  intro value last inside _
  exact (deepens_pushValue inside.closed (inside.holds (found.holds holds)) value).mono
    fun _ _ _ _ => trivial

theorem calm_checkElement (array : Class) (value : Value) :
    Moves Calm (checkElement array value) machine fun _ _ => True := by
  rw [checkElement.eq_def]
  split
  · refine (calm_classOf closed _).bind ?_
    intro held after found _
    refine Moves.get_bind ?_
    split
    · exact Moves.pure found.closed.calm_refl trivial
    · split
      · exact calm_raise found.closed _ _
      · exact Moves.pure found.closed.calm_refl trivial
  · exact Moves.pure closed.calm_refl trivial

theorem deepens_storeElement {kind : Kind}
    (holds : machine.exec.Holds current ((storedKind kind).slots + 2)) :
    Moves (Deepens plain) (storeElement kind) machine fun _ _ => True := by
  rw [Nat.add_comm] at holds
  refine (deepens_popValue closed holds).bind ?_
  intro value first popped holds
  have pops : Moves (Deepens plain) (arrayOperands "store to") first fun _ _ => True :=
    (deepens_arrayOperands popped.closed (Nat.zero_add 2 ▸ holds) "store to").mono
      fun _ _ _ _ => trivial
  refine pops.bind ?_
  rintro ⟨array, index⟩ second checked -
  refine Moves.get_bind ((calm_classOf checked.closed array).calm_bind ?_)
  intro cls third found _
  refine (calm_checkElement found.closed _ value).calm_bind ?_
  intro _ last accepted _
  refine Moves.get_bind ?_
  dsimp only
  split
  · have stored := accepted.closed.heap.modifyArray array fun data =>
      data.set index (narrowFor (second.cls cls) value)
    exact Moves.modify (accepted.closed.calm_modifyHeap stored).deepens trivial
  · exact (calm_fault accepted.closed _).calm_deepens

theorem deepens_arrayLength (holds : machine.exec.Holds current 1) :
    Moves (Deepens plain) arrayLength machine fun _ _ => True := by
  refine (deepens_popRef closed (Nat.zero_add 1 ▸ holds)).bind ?_
  intro array first popped holds
  cases array with
  | none => exact (calm_raiseNull popped.closed _).calm_deepens
  | some array =>
      refine Moves.get_bind ?_
      split
      · exact (calm_fault popped.closed _).calm_deepens
      · exact (deepens_pushValue popped.closed holds _).mono fun _ _ _ _ => trivial

/-- Steps over a list, each of which is calm. -/
theorem calm_forM {items : List β} {step : β → Guest PUnit}
    (each : ∀ item, ∀ before : Machine, machine.Calm before →
      Moves Calm (step item) before fun _ _ => True) :
    Moves Calm (items.forM step) machine fun _ _ => True := by
  induction items generalizing machine with
  | nil => exact Moves.pure closed.calm_refl trivial
  | cons item items ih =>
      refine (each item machine closed.calm_refl).bind ?_
      intro _ after calm _
      exact ih calm.closed fun item before later => each item before (calm.trans later)

theorem calm_newNestedArray {id : ClassId} (known : machine.registry.Has id) (counts : List Int32) :
    Moves Calm (newNestedArray id counts) machine fun _ _ => True := by
  induction counts generalizing machine id with
  | nil => exact calm_fault closed _
  | cons count inner ih =>
      cases inner with
      | nil => exact calm_newArray closed known count
      | cons next inner =>
          refine (calm_newArray closed known count).bind ?_
          intro array first made _
          refine Moves.get_bind ?_
          have elements : Moves Calm (require ((first.cls id).array.bind (·.component))
              .surplusDimensions) first fun component after => after.registry.Has component := by
            refine calm_require made.closed _ ?_
            intro component found
            obtain ⟨info, array, declared⟩ := Option.bind_eq_some_iff.mp found
            exact (made.closed.registry.table.idsIn id).component info component array declared
          refine elements.bind ?_
          intro component second found known
          have rows : Moves Calm ((List.range count.toNatClampNeg).forM fun index => do
              let row ← newNestedArray component (next :: inner)
              modify fun machine => machine.modifyHeap fun heap =>
                heap.modifyArray array fun data => data.set index (.ref (some row))) second
              fun _ _ => True := by
            refine calm_forM found.closed ?_
            intro index before calm
            refine (ih calm.closed (calm.grows.has known)).bind ?_
            intro row after nested _
            have stored := nested.closed.heap.modifyArray array fun data =>
              data.set index (.ref (some row))
            exact Moves.modify (nested.closed.calm_modifyHeap stored) trivial
          refine rows.bind ?_
          exact fun _ _ calm _ => Moves.pure calm.closed.calm_refl trivial

theorem deepens_popCounts {left : Nat} (dimensions : Nat) (counts : List Int32)
    (holds : machine.exec.Holds current (left + dimensions)) :
    Moves (Deepens plain) (popCounts dimensions counts) machine
      fun _ after => after.exec.Holds current left := by
  induction dimensions generalizing machine counts with
  | zero => exact Moves.pure closed.calm_refl.deepens holds
  | succ dimensions ih =>
      refine (deepens_pop closed holds).bind ?_
      intro slot after popped holds
      exact ih popped.closed _ holds

theorem deepens_pushRef (holds : machine.exec.Holds current 0) (ref : Ref) :
    Moves (Deepens plain) (onStack fun stack => stack.pushRef (some ref)) machine
      fun _ after => after.exec.Holds current 0 :=
  deepens_onStack closed holds.busy (Stack.keeps_pushRef holds.room _)

theorem deepens_pushNestedArray {id : ClassId} (known : machine.registry.Has id) {dimensions : Nat}
    (holds : machine.exec.Holds current dimensions) :
    Moves (Deepens plain) (pushNestedArray id dimensions) machine fun _ _ => True := by
  refine (deepens_popCounts closed dimensions [] (Nat.zero_add dimensions ▸ holds)).bind ?_
  intro counts first popped holds
  split
  · exact (calm_raise popped.closed _ _).calm_deepens
  · refine (calm_newNestedArray popped.closed (popped.grows.has known) counts).calm_bind ?_
    intro array last made _
    exact (deepens_pushRef made.closed (made.holds holds) array).mono fun _ _ _ _ => trivial

/-! ## Fields -/

theorem calm_mismatch {returned : α → Machine → Prop} (message : String) :
    Moves Calm (mismatch message : Guest α) machine returned :=
  calm_raise closed _ _

omit closed in
/-- The static field that is found, if its class needs no initialization first. -/
theorem deepens_staticField? {owner : ClassId} {index : UInt16} {named : ResolvedField → Prop}
    (resolves : Moves Calm (resolveField owner index) machine
      fun field after => after.registry.Has field.owner ∧ named field) (pc : UInt32) :
    Moves (Deepens plain) (staticField? owner index pc) machine
      fun found after => ∀ field, found = some field → machine.Stays after ∧ named field := by
  refine resolves.calm_bind ?_
  rintro field first calm ⟨known, name⟩
  split
  · exact Moves.get_bind (calm_mismatch calm.closed _).calm_deepens
  · refine (deepens_ensureInitialized calm.closed known pc).bind ?_
    intro pushed last initialized quiet
    cases pushed with
    | true =>
        refine Moves.pure initialized.closed.calm_refl.deepens ?_
        rintro field ⟨⟩
    | false =>
        refine Moves.pure initialized.closed.calm_refl.deepens ?_
        rintro field ⟨⟩
        exact ⟨calm.toStays.trans (quiet rfl), name⟩

theorem deepens_getStatic (holds : machine.exec.Holds current 0) (owner : ClassId)
    (index : UInt16) (pc next : UInt32) :
    Moves (Deepens plain) (getStatic owner index pc next) machine fun _ _ => True := by
  have resolves : Moves Calm (resolveField owner index) machine
      fun field after => after.registry.Has field.owner ∧ True :=
    (calm_resolveField closed owner index).mono fun _ _ _ known => ⟨known, trivial⟩
  refine (deepens_staticField? resolves pc).bind ?_
  intro found first initialized quiet
  cases found with
  | none => exact Moves.pure initialized.closed.calm_refl.deepens trivial
  | some field =>
      obtain ⟨stays, -⟩ := quiet field rfl
      have reads : Moves Calm (require (first.cls field.owner).statics .classHasNoStatics) first
          fun _ _ => True := calm_require initialized.closed _ fun _ _ => trivial
      refine Moves.get_bind (reads.calm_bind ?_)
      intro statics last read _
      exact deepens_pushResult read.closed (read.holds (stays.holds holds)) _ next

omit closed in
theorem deepens_setStatic {owner : ClassId} {index : UInt16}
    (resolves : Moves Calm (resolveField owner index) machine
      fun field after => after.registry.Has field.owner ∧ machine.exec.Holds current field.kind.slots)
    (pc next : UInt32) :
    Moves (Deepens plain) (setStatic owner index pc next) machine fun _ _ => True := by
  refine (deepens_staticField? resolves pc).bind ?_
  intro found first initialized quiet
  cases found with
  | none => exact Moves.pure initialized.closed.calm_refl.deepens trivial
  | some field =>
      obtain ⟨stays, holds⟩ := quiet field rfl
      have operands : first.exec.Holds current (0 + field.kind.slots) := by
        rw [Nat.zero_add]
        exact stays.holds holds
      refine (deepens_popValue initialized.closed operands).bind ?_
      intro value second popped _
      have puts : Moves (Deepens plain) (do
          putStatic field.owner field.slot.toNat value
          proceed next) second fun _ _ => True := by
        refine (calm_putStatic popped.closed _ _ _).calm_bind ?_
        exact fun _ _ put _ => (calm_proceed put.closed next).calm_deepens
      refine Moves.get_bind ?_
      split
      · exact Moves.never_bind (calm_fault popped.closed _).calm_deepens
      · exact puts

omit closed in
theorem calm_instanceField {owner : ClassId} {index : UInt16} {named : ResolvedField → Prop}
    (resolves : Moves Calm (resolveField owner index) machine fun field _ => named field) :
    Moves Calm (instanceField owner index) machine fun field _ => named field := by
  refine resolves.bind ?_
  intro field after calm name
  split
  · exact Moves.get_bind (calm_mismatch calm.closed _)
  · exact Moves.pure calm.closed.calm_refl name

theorem deepens_getField (holds : machine.exec.Holds current 1) (owner : ClassId) (index : UInt16)
    (next : UInt32) : Moves (Deepens plain) (getField owner index next) machine fun _ _ => True := by
  have resolves : Moves Calm (resolveField owner index) machine fun _ _ => True :=
    (calm_resolveField closed owner index).mono fun _ _ _ _ => trivial
  refine (calm_instanceField resolves).calm_bind ?_
  intro field first calm _
  refine (deepens_popRef calm.closed (Nat.zero_add 1 ▸ calm.holds holds)).bind ?_
  intro ref second popped holds
  cases ref with
  | none => exact Moves.get_bind (calm_raiseNull popped.closed _).calm_deepens
  | some ref =>
      have reads : Moves Calm (require (second.heap.fields? ref) (.readOfNonInstance ref)) second
          fun _ _ => True := calm_require popped.closed _ fun _ _ => trivial
      refine Moves.get_bind (reads.calm_bind ?_)
      intro fields last read _
      exact deepens_pushResult read.closed (read.holds holds) _ next

omit closed in
theorem deepens_setField {owner : ClassId} {index : UInt16}
    (resolves : Moves Calm (resolveField owner index) machine
      fun field _ => machine.exec.Holds current (field.kind.slots + 1)) (next : UInt32) :
    Moves (Deepens plain) (setField owner index next) machine fun _ _ => True := by
  refine (calm_instanceField resolves).calm_bind ?_
  intro field first calm holds
  have operands : first.exec.Holds current (1 + field.kind.slots) := by
    rw [Nat.add_comm]
    exact calm.holds holds
  refine (deepens_popValue calm.closed operands).bind ?_
  intro value second popped holds
  refine (deepens_popRef popped.closed (Nat.zero_add 1 ▸ holds)).bind ?_
  intro ref third taken _
  cases ref with
  | none => exact Moves.get_bind (calm_raiseNull taken.closed _).calm_deepens
  | some ref =>
      refine Moves.get_bind ?_
      split
      · exact Moves.never_bind (calm_fault taken.closed _).calm_deepens
      · have stored : third.Calm (third.modifyHeap fun heap => heap.modifyFields ref fun fields =>
            fields.write field.slot.toNat value) :=
          taken.closed.calm_modifyHeap (taken.closed.heap.modifyFields _ _)
        exact Moves.modify_bind stored.deepens (calm_proceed stored.closed next).calm_deepens

/-! ## Calls -/

section

variable {reentry : Reentry} (stages : reentry.Stages)
  (bounded : machine.config.stackSlots ≤ FrameContext.encodablePositions)

include stages bounded

theorem extends_invokeInstance {mode : CallMode} {index : UInt16}
    (busy : machine.exec.method = some current)
    (demands : Ends (operands current (.invoke mode index)) machine
      (fun count _ => machine.exec.Offers count) fun _ _ => True)
    (calls : plain → Ends (callee current (.invoke mode index)) machine
      (fun named after => after.Ordinary named) fun _ _ => True) (pc next : UInt32) :
    Moves (Extends plain) (invokeInstance reentry mode current.owner index pc next) machine
      fun _ _ => True := by
  simp only [operands, ends_bind, ends_get] at demands
  simp only [callee, ends_bind, ends_pure] at calls
  refine (((calm_resolveMethod closed current.owner index).and_ends demands).and_ends
    (ends_of_imp calls)).calm_bind_extends ?_
  rintro resolved first calm ⟨⟨linked, demands⟩, ordinary⟩
  refine Moves.get_bind ?_
  dsimp only
  split
  · exact (calm_mismatch calm.closed _).calm_deepens.deepens_extends
  · split
    next => exact (calm_raiseNull calm.closed _).calm_deepens.deepens_extends
    next receiver found =>
        simp only [found, ends_bind, ends_get, ends_pure] at demands
        -- the target has the name of the method that is named, as far as tables are in order
        have runs : Moves (Extends (plain ∧ first.registry.Ordered)) (do
            let target ← selectTarget mode receiver resolved.method
            invoke reentry target pc next) first fun _ _ => True := by
          refine ((calm_selectTarget calm.closed mode receiver linked).and_ends
            demands).calm_bind_extends ?_
          rintro target last selected ⟨⟨chosen, name⟩, offers⟩
          have moved := calm.trans selected
          refine extends_invoke selected.closed stages (moved.config ▸ bounded)
            (moved.exec.method.trans busy) chosen (moved.offers offers) ?_ pc next
          rintro ⟨calls, ordered⟩
          have same := selected.advances.isInitializer linked
          rw [ordinary calls _ rfl] at same
          exact (congrArg (· == "<clinit>") (name ordered)).trans same
        exact runs.of_related fun _ extended => extended.of_ordered

theorem extends_invokeStatic {index : UInt16} (busy : machine.exec.method = some current)
    (demands : Ends (operands current (.invokeStatic index)) machine
      (fun count _ => machine.exec.Offers count) fun _ _ => True)
    (calls : plain → Ends (callee current (.invokeStatic index)) machine
      (fun named after => after.Ordinary named) fun _ _ => True) (pc next : UInt32) :
    Moves (Extends plain) (invokeStatic reentry current.owner index pc next) machine
      fun _ _ => True := by
  simp only [operands, ends_bind, ends_get, ends_pure] at demands
  simp only [callee, ends_bind, ends_pure] at calls
  refine (((calm_resolveMethod closed current.owner index).and_ends demands).and_ends
    (ends_of_imp calls)).calm_bind_extends ?_
  rintro resolved first calm ⟨⟨linked, offers⟩, ordinary⟩
  split
  · exact Moves.get_bind (calm_mismatch calm.closed _).calm_deepens.deepens_extends
  · refine (deepens_ensureInitialized calm.closed linked.1 pc).compose (Extends plain)
      (fun _ _ deepens => deepens.extends) ?_
    intro pushed last initialized quiet
    cases pushed with
    | true => exact Moves.pure initialized.closed.calm_refl.extends trivial
    | false =>
        have moved := calm.toStays.trans (quiet rfl)
        refine extends_invoke initialized.closed stages (moved.config ▸ bounded)
          (moved.exec.method.trans busy) ((quiet rfl).grows.hasMethod linked) ?_ ?_ pc next
        · rw [(quiet rfl).frameArgSlots linked]
          exact moved.offers offers
        · exact fun calls => ((quiet rfl).advances.isInitializer linked).trans
            (ordinary calls _ rfl)

end

/-! ## Objects and types -/

theorem deepens_pushInstance (holds : machine.exec.Holds current 0) (owner : ClassId)
    (index : UInt16) (pc next : UInt32) :
    Moves (Deepens plain) (pushInstance owner index pc next) machine fun _ _ => True := by
  refine (calm_resolveClass closed owner index).calm_bind ?_
  intro target first calm known
  refine Moves.get_bind ?_
  dsimp only
  split
  · exact (calm_raise calm.closed _ _).calm_deepens
  · refine (deepens_ensureInitialized calm.closed known pc).bind ?_
    intro pushed second initialized quiet
    cases pushed with
    | true => exact Moves.pure initialized.closed.calm_refl.deepens trivial
    | false =>
        refine (calm_newInstance initialized.closed ((quiet rfl).grows.has known)).calm_bind ?_
        intro ref third made _
        have moved := (calm.toStays.trans (quiet rfl)).trans made.toStays
        refine (deepens_pushRef made.closed (moved.holds holds) ref).bind ?_
        exact fun _ _ pushed _ => (calm_proceed pushed.closed next).calm_deepens

theorem deepens_pushArray (holds : machine.exec.Holds current 0) {id : ClassId}
    (known : machine.registry.Has id) (count : Slot) (next : UInt32) :
    Moves (Deepens plain) (pushArray id count next) machine fun _ _ => True := by
  refine (calm_newArray closed known _).calm_bind ?_
  intro array first made _
  refine (deepens_pushRef made.closed (made.holds holds) array).bind ?_
  exact fun _ _ pushed _ => (calm_proceed pushed.closed next).calm_deepens

theorem deepens_pushPrimitiveArray (holds : machine.exec.Holds current 1) (code : UInt8)
    (next : UInt32) : Moves (Deepens plain) (pushPrimitiveArray code next) machine fun _ _ => True := by
  have decodes : Moves Calm (require (PrimitiveArray.ofCode code) (.badElementType code)) machine
      fun _ _ => True := calm_require closed _ fun _ _ => trivial
  refine decodes.calm_bind ?_
  intro element first calm _
  refine (deepens_pop calm.closed (Nat.zero_add 1 ▸ calm.holds holds)).bind ?_
  intro count second popped holds
  refine (calm_loadClass popped.closed _).calm_bind ?_
  intro id last loads known
  exact deepens_pushArray loads.closed (loads.holds holds) known count next

theorem deepens_pushRefArray (holds : machine.exec.Holds current 1) (owner : ClassId)
    (index : UInt16) (next : UInt32) :
    Moves (Deepens plain) (pushRefArray owner index next) machine fun _ _ => True := by
  refine (calm_resolveClass closed owner index).calm_bind ?_
  intro component first calm _
  refine (deepens_pop calm.closed (Nat.zero_add 1 ▸ calm.holds holds)).bind ?_
  intro count second popped holds
  refine (calm_arrayClassOf popped.closed component).calm_bind ?_
  intro id last linked known
  exact deepens_pushArray linked.closed (linked.holds holds) known count next

theorem calm_checkCast (owner : ClassId) (index : UInt16) (next : UInt32) :
    Moves Calm (checkCast owner index next) machine fun _ _ => True := by
  refine (calm_resolveClass closed owner index).bind ?_
  intro target first calm _
  refine Moves.get_bind ?_
  split
  · exact calm_proceed calm.closed next
  · refine (calm_classOf calm.closed _).bind ?_
    intro held last found _
    refine Moves.get_bind ?_
    split
    · exact calm_proceed found.closed next
    · exact calm_raise found.closed _ _

theorem deepens_testInstance (holds : machine.exec.Holds current 1) (owner : ClassId)
    (index : UInt16) (next : UInt32) :
    Moves (Deepens plain) (testInstance owner index next) machine fun _ _ => True := by
  refine (calm_resolveClass closed owner index).calm_bind ?_
  intro target first calm _
  refine (deepens_popRef calm.closed (Nat.zero_add 1 ▸ calm.holds holds)).bind ?_
  intro ref second popped holds
  cases ref with
  | none => exact deepens_pushResult popped.closed holds _ next
  | some ref =>
      refine (calm_classOf popped.closed ref).calm_bind ?_
      intro held last found _
      exact Moves.get_bind (deepens_pushResult found.closed (found.holds holds) _ next)

theorem deepens_pushConstant (holds : machine.exec.Holds current 0) (owner : ClassId)
    (index : UInt16) (next : UInt32) :
    Moves (Deepens plain) (pushConstant owner index next) machine fun _ _ => True := by
  refine (calm_constantAt closed owner index).calm_bind ?_
  intro constant first calm _
  have holds := calm.holds holds
  have literal : ∀ (value : Value) (before : Machine), first.Calm before → Moves (Deepens plain) (do
      let value ← pure value
      onStack fun stack => stack.pushValue value
      proceed next) before fun _ _ => True := by
    intro value before later
    rw [pure_bind]
    exact deepens_pushResult later.closed (later.holds holds) value next
  have string : Moves (Deepens plain) (do
      let ref ← resolveString owner index
      let value ← pure (ofRef ref)
      onStack fun stack => stack.pushValue value
      proceed next) first fun _ _ => True := by
    refine (calm_resolveString calm.closed owner index).calm_bind ?_
    exact fun ref after resolved _ => literal (ofRef ref) after resolved
  have cls : Moves (Deepens plain) (do
      let id ← resolveClass owner index
      let ref ← mirror id
      let value ← pure (ofRef ref)
      onStack fun stack => stack.pushValue value
      proceed next) first fun _ _ => True := by
    refine (calm_resolveClass calm.closed owner index).calm_bind ?_
    intro id second resolved _
    refine (calm_mirror resolved.closed id).calm_bind ?_
    exact fun ref after made _ => literal (ofRef ref) after (resolved.trans made)
  split <;> dsimp only
  · exact literal _ first calm.closed.calm_refl
  · exact literal _ first calm.closed.calm_refl
  · exact literal _ first calm.closed.calm_refl
  · exact literal _ first calm.closed.calm_refl
  · exact string
  · exact string
  · exact cls
  · exact cls
  · exact Moves.never_bind (calm_fatal calm.closed _).calm_deepens

/-! ## Monitors -/

theorem deepens_discard (holds : machine.exec.Holds current 1) :
    Moves (Deepens plain) (onStack fun stack => stack.discard 1) machine
      fun _ after => after.exec.Holds current 0 :=
  deepens_onStack closed holds.busy (Stack.keeps_discard holds.room)

theorem deepens_enterMonitor (holds : machine.exec.Holds current 1) (next : UInt32) :
    Moves (Deepens plain) (enterMonitor next) machine fun _ _ => True := by
  refine Moves.get_bind ?_
  split
  · refine (deepens_discard closed holds).bind ?_
    exact fun _ _ popped _ => (calm_raiseNull popped.closed _).calm_deepens
  · next ref _ =>
      have enters : Moves Calm (enterLock (.object ref)) machine fun _ _ => True :=
        Moves.modifyGet (closed.calm_enterLock _) trivial
      refine enters.calm_bind ?_
      intro taken first calm _
      split
      · refine (deepens_discard calm.closed (calm.holds holds)).bind ?_
        exact fun _ _ popped _ => (calm_proceed popped.closed next).calm_deepens
      · exact Moves.pure calm.closed.calm_refl.deepens trivial

theorem deepens_exitMonitor (holds : machine.exec.Holds current 1) (next : UInt32) :
    Moves (Deepens plain) (exitMonitor next) machine fun _ _ => True := by
  refine (deepens_popRef closed (Nat.zero_add 1 ▸ holds)).bind ?_
  intro ref first popped _
  cases ref with
  | none => exact (calm_raiseNull popped.closed _).calm_deepens
  | some ref =>
      have exits : Moves Calm (exitLock (.object ref)) first fun _ _ => True :=
        Moves.modifyGet (popped.closed.calm_exitLock _) trivial
      refine exits.calm_bind ?_
      intro released last calm _
      split
      · exact (calm_proceed calm.closed next).calm_deepens
      · exact (calm_raise calm.closed _ _).calm_deepens

end Jvm.Guest
