import Jvm.Machine.Schedule
import Jvm.Proofs.Machine.Members

/-!
# Steps of the interpreter

An instruction whose operands are there leaves every frame below the current one
as it is. It may add frames, by a call or by starting initializers, and take
frames off, by a return or by unwinding for an exception; what was saved in a
frame that is neither new nor gone has not changed.
-/

namespace Jvm

namespace Machine

/-- Whether a machine has come from another one by adding frames, and then taking
frames off. -/
def Turns (plain : Prop) (before after : Machine) : Prop :=
  ∃ between, before.Extends plain between ∧ between.Shrinks after

section

variable {plain : Prop} {first second third : Machine}

theorem Extends.turns (extended : first.Extends plain second) : first.Turns plain second :=
  ⟨second, extended, extended.closed.calm_refl.shrinks⟩

theorem Shrinks.turns (closed : first.Closed) (shrinks : first.Shrinks second) :
    first.Turns plain second :=
  ⟨first, closed.calm_refl.extends, shrinks⟩

theorem Turns.closed (turns : first.Turns plain second) : second.Closed := by
  obtain ⟨_, _, shrinks⟩ := turns
  exact shrinks.closed

theorem Calm.turns_trans (calm : first.Calm second) (turns : second.Turns plain third) :
    first.Turns plain third := by
  obtain ⟨between, extended, shrinks⟩ := turns
  exact ⟨between, calm.deepens.trans_extends extended, shrinks⟩

theorem Turns.shrinks (turns : first.Turns plain second) (shrinks : second.Shrinks third) :
    first.Turns plain third := by
  obtain ⟨between, extended, shrinks'⟩ := turns
  exact ⟨between, extended, shrinks'.trans shrinks⟩

end

/-- Whether a step turns a machine if it returns, and has only added frames if it
throws. -/
def Turning (plain : Prop) {ε α : Type} (step : EStateM ε Machine α) (machine : Machine) : Prop :=
  Ends step machine (fun _ after => machine.Turns plain after) fun _ after => machine.Extends plain after

end Machine

namespace Moves

open Machine

variable {plain : Prop} {ε α β : Type} {machine : Machine}

theorem extends_turning {step : EStateM ε Machine α}
    (moves : Moves (Extends plain) step machine fun _ _ => True) : Turning plain step machine :=
  Ends.mono moves (fun _ _ ended => ended.1.turns) fun _ _ ended => ended

theorem turning {step : EStateM ε Machine α} (moves : Moves (Deepens plain) step machine fun _ _ => True) :
    Turning plain step machine :=
  moves.deepens_extends.extends_turning

theorem turning_bind {step : EStateM ε Machine β} {next : β → EStateM ε Machine α}
    {between : β → Machine → Prop} (first : Moves Calm step machine between)
    (rest : ∀ value after, machine.Calm after → between value after → Turning plain (next value) after) :
    Turning plain (step >>= next) machine := by
  rw [Turning, ends_bind]
  refine Ends.mono first ?_ ?_
  · intro value after ended
    refine Ends.mono (rest value after ended.1 ended.2) ?_ ?_
    · exact fun _ _ turns => ended.1.turns_trans turns
    · exact fun _ _ extended => ended.1.deepens.trans_extends extended
  · exact fun _ _ calm => calm.extends

theorem turning_get {next : Machine → EStateM ε Machine α} (rest : Turning plain (next machine) machine) :
    Turning plain (get >>= next) machine := by
  rw [Turning, ends_bind, ends_get]
  exact rest

end Moves

namespace Guest

open Machine

variable {plain : Prop} {α : Type} {machine : Machine} (closed : machine.Closed)
  {current : MethodId}

include closed

/-! ## Decoding and stopping -/

theorem calm_ofDecodeFault {returned : α → Machine → Prop} (id : MethodId)
    (decodeFault : DecodeFault) :
    Moves Calm (ofDecodeFault id decodeFault : Guest α) machine returned := by
  refine Moves.get_bind ?_
  cases decodeFault with
  | unknown => exact calm_fatal closed _
  | _ => exact calm_fault closed _

theorem calm_ofDecode (id : MethodId) (decoded : Except DecodeFault α) :
    Moves Calm (ofDecode id decoded) machine fun value _ => decoded = .ok value := by
  cases decoded with
  | ok value => exact Moves.pure closed.calm_refl rfl
  | error decodeFault => exact calm_ofDecodeFault closed id decodeFault

theorem calm_jumpBy (id : MethodId) (pc : UInt32) (offset : Except DecodeFault UInt32) :
    Moves Calm (jumpBy id pc offset) machine fun _ _ => True := by
  refine (calm_ofDecode closed id offset).bind ?_
  exact fun distance _ calm _ => calm_proceed calm.closed (pc + distance)

theorem calm_debugger (debugger : Debugger) : machine.Calm { machine with debugger } :=
  ⟨⟨.refl _, ⟨closed.registry, closed.known, closed.heap⟩, .refl _, rfl, rfl, rfl⟩, .refl _⟩

theorem calm_reportStop (reason : StopReason) (id : MethodId) (pc : UInt32) :
    machine.Calm (machine.reportStop reason id pc).2 :=
  calm_debugger closed _

theorem calm_stopBefore (reason : StopReason) (id : MethodId) (pc : UInt32) :
    machine.Calm (machine.stopBefore reason id pc).2 := by
  have reported := calm_reportStop closed reason id pc
  have noted : machine.Calm ((machine.reportStop reason id pc).2.modifyExec fun exec =>
      { exec with skipBreakpoint := some (id, pc) }) :=
    reported.trans (reported.closed.calm_modifyExec ⟨rfl, rfl, rfl, rfl⟩)
  rw [stopBefore]
  dsimp only
  split
  · exact noted
  · exact reported

theorem calm_checkStop (id : MethodId) (pc : UInt32) :
    machine.Calm (machine.checkStop id pc).2 := by
  rw [checkStop]
  split
  · dsimp only
    split
    · next reason debugger _ =>
      have asked := calm_debugger closed debugger
      exact asked.trans (calm_stopBefore asked.closed reason id pc)
    · exact calm_debugger closed _
  · exact closed.calm_refl

theorem calm_stopOnThrow (ref : Ref) : machine.Calm (machine.stopOnThrow ref).2 := by
  rw [stopOnThrow]
  split
  · split
    · next id className _ _ =>
      have reported := calm_reportStop closed
        (.exception className (machine.throwableMessage? ref)) id machine.exec.pc
      have kept : machine.Calm ((machine.reportStop (.exception className
          (machine.throwableMessage? ref)) id machine.exec.pc).2.modifyExec fun exec =>
            { exec with pendingException := some ref }) :=
        reported.trans (reported.closed.calm_modifyExec ⟨rfl, rfl, rfl, rfl⟩)
      dsimp only
      split
      · exact kept
      · exact reported
    · exact closed.calm_refl
  · exact closed.calm_refl

theorem calm_takeResumed (id : MethodId) (pc : UInt32) :
    Moves Calm (takeResumed id pc) machine fun _ _ => True := by
  refine Moves.get_bind ?_
  split
  · exact Moves.pure closed.calm_refl trivial
  · have resumed : machine.Calm (machine.modifyExec fun exec =>
        { exec with skipBreakpoint := none }) := closed.calm_modifyExec ⟨rfl, rfl, rfl, rfl⟩
    exact Moves.modify_bind resumed (Moves.pure resumed.closed.calm_refl trivial)

theorem calm_underBreakpoint (id : MethodId) (pc : UInt32) (resumed : Bool) :
    Moves Calm (underBreakpoint id pc resumed) machine fun _ _ => True := by
  refine Moves.get_bind ?_
  split
  · exact calm_fatal closed _
  · split
    · exact Moves.pure closed.calm_refl trivial
    · have stops : Moves Calm (modifyGet fun machine => machine.stopBefore .breakpoint id pc :
          Guest Bool) machine fun _ _ => True :=
        Moves.modifyGet (calm_stopBefore closed .breakpoint id pc) trivial
      refine stops.bind ?_
      intro stopped after calm _
      split
      · exact Moves.pure calm.closed.calm_refl trivial
      · exact Moves.pure calm.closed.calm_refl trivial

theorem calm_fetch (id : MethodId) (pc : UInt32) (byte : UInt8) :
    Moves Calm (fetch id pc byte) machine fun _ _ => True := by
  have reads : ∀ (resumed : Bool) (before : Machine), before.Closed → Moves Calm
      (if byte = Opcode.breakpoint.byte then underBreakpoint id pc resumed else pure (some byte))
      before fun _ _ => True := by
    intro resumed before closed
    split
    · exact calm_underBreakpoint closed id pc resumed
    · exact Moves.pure closed.calm_refl trivial
  refine (calm_takeResumed closed id pc).bind ?_
  intro resumed first calm _
  cases resumed with
  | true => exact reads true first calm.closed
  | false =>
      have asks : Moves Calm (modifyGet fun machine => machine.checkStop id pc : Guest Bool) first
          fun _ _ => True := Moves.modifyGet (calm_checkStop calm.closed id pc) trivial
      refine asks.bind ?_
      intro stopped last asked _
      cases stopped with
      | true => exact Moves.pure asked.closed.calm_refl trivial
      | false => exact reads false last asked.closed

/-! ## Instructions -/

theorem deepens_divide {take : Stack → Bool × Stack}
    (keeps : machine.exec.stack.Keeps (machine.exec.startSp + 1) (take machine.exec.stack).2)
    (next : UInt32) : Moves (Deepens plain) (divide next take) machine fun _ _ => True := by
  have deepens : machine.Deepens plain (machine.modifyStack fun _ => (take machine.exec.stack).2) :=
    deepens_above closed rfl rfl rfl keeps
  have takes : Moves (Deepens plain) (fromStack take) machine fun _ _ => True :=
    Moves.of_ok rfl deepens trivial
  refine takes.bind ?_
  intro defined after moved _
  cases defined with
  | true => exact (calm_proceed moved.closed next).calm_deepens
  | false => exact (calm_raise moved.closed _ _).calm_deepens

/-- The current frame is left with the value on top of its stack. -/
theorem turning_leave {kind : Kind} (holds : machine.exec.Holds current kind.slots) :
    Turning plain (do returnFromFrame (← fromStack fun stack => stack.popValue kind)) machine := by
  have keeps := Stack.keeps_popValue holds.room
  have deepens : machine.Deepens plain
      (machine.modifyStack fun _ => (machine.exec.stack.popValue kind).2) :=
    deepens_above closed rfl rfl rfl keeps
  have shrinks : machine.Shrinks
      (machine.modifyStack fun _ => (machine.exec.stack.popValue kind).2) :=
    shrinks_of_keeps closed rfl rfl rfl keeps.limit fun _ _ _ => keeps
  rw [Turning, ends_bind]
  refine Ends.of_ok rfl ?_
  refine Ends.mono (ends_returnFromFrame_shrinks shrinks.closed _) ?_ ?_
  · exact fun _ _ returned => (shrinks.trans returned).turns closed
  · exact fun _ _ calm => (deepens.trans calm.deepens).extends

theorem turning_leaveVoid : Turning plain (returnFromFrame .void) machine := by
  refine Ends.mono (ends_returnFromFrame_shrinks closed _) ?_ ?_
  · exact fun _ _ returned => returned.turns closed
  · exact fun _ _ calm => calm.extends

theorem deepens_branch {condition : Condition} (holds : machine.exec.Holds current condition.slots)
    (code : Array UInt8) (pc next : UInt32) :
    Moves (Deepens plain) (do
      if ← fromStack fun stack => stack.decideCondition condition then
        jumpBy current pc (offsetAt code pc false)
      else proceed next) machine fun _ _ => True := by
  have deepens : machine.Deepens plain
      (machine.modifyStack fun _ => (machine.exec.stack.decideCondition condition).2) :=
    deepens_above closed rfl rfl rfl (Stack.keeps_decideCondition holds.room)
  have takes : Moves (Deepens plain) (fromStack fun stack => stack.decideCondition condition) machine
      fun _ _ => True := Moves.of_ok rfl deepens trivial
  refine takes.bind ?_
  intro taken after moved _
  split
  · exact (calm_jumpBy moved.closed ..).calm_deepens
  · exact (calm_proceed moved.closed next).calm_deepens

theorem deepens_jumpSubroutine (holds : machine.exec.Holds current 0) (pc next : UInt32)
    (offset : Except DecodeFault UInt32) :
    Moves (Deepens plain) (do
      onStack fun stack => stack.push next
      jumpBy current pc offset) machine fun _ _ => True := by
  refine (deepens_onStack closed holds.busy (Stack.keeps_push holds.floor next)).bind ?_
  exact fun _ _ pushed _ => (calm_jumpBy pushed.closed ..).calm_deepens

/-- A jump whose offset is selected by the key on top of the stack. -/
theorem deepens_switch (holds : machine.exec.Holds current 1) (pc : UInt32)
    (select : Slot → Except DecodeFault UInt32) :
    Moves (Deepens plain) (do
      let key ← fromStack Stack.pop
      jumpBy current pc (select key)) machine fun _ _ => True := by
  refine (deepens_pop closed (Nat.zero_add 1 ▸ holds)).bind ?_
  exact fun _ _ popped _ => (calm_jumpBy popped.closed ..).calm_deepens

theorem deepens_throwRef (holds : machine.exec.Holds current 1) :
    Moves (Deepens plain) (do
      match ← fromStack Stack.popRef with
      | some ref => throw (.exception ref)
      | none => raiseNull "Cannot throw exception because value is null" : Guest Step) machine
      fun _ _ => True := by
  refine (deepens_popRef closed (Nat.zero_add 1 ▸ holds)).bind ?_
  intro ref after popped _
  cases ref with
  | some ref => exact Moves.throw popped.closed.calm_refl.deepens
  | none => exact (calm_raiseNull popped.closed _).calm_deepens

omit closed in
/-- A step that leaves its result on the stack, and then the pc behind it. -/
theorem deepens_then_proceed {step : Guest Unit} (moves : Moves (Deepens plain) step machine fun _ _ => True)
    (next : UInt32) :
    Moves (Deepens plain) (do
      step
      proceed next) machine fun _ _ => True := by
  refine moves.bind ?_
  exact fun _ _ moved _ => (calm_proceed moved.closed next).calm_deepens

theorem deepens_newMultiArray {dimensions : UInt8}
    (holds : machine.exec.Holds current dimensions.toNat) (index : UInt16) (pc next : UInt32) :
    Moves (Deepens plain) (do
      if dimensions = 0 then fault (.zeroDimensions ((← get).methodLabel current) pc)
      let cls ← resolveClass current.owner index
      pushNestedArray cls dimensions.toNat
      proceed next) machine fun _ _ => True := by
  have builds : Moves (Deepens plain) (do
      let cls ← resolveClass current.owner index
      pushNestedArray cls dimensions.toNat
      proceed next) machine fun _ _ => True := by
    refine (calm_resolveClass closed current.owner index).calm_bind ?_
    intro cls after calm known
    exact deepens_then_proceed (deepens_pushNestedArray calm.closed known (calm.holds holds)) next
  split
  · exact Moves.get_bind (Moves.never_bind (calm_fault closed _).calm_deepens)
  · exact builds

variable {reentry : Reentry} (stages : reentry.Stages)
  (bounded : machine.config.stackSlots ≤ FrameContext.encodablePositions)
  (busy : machine.exec.method = some current)

include stages bounded busy

theorem turning_execute {instr : Instr}
    (demands : Ends (operands current instr) machine
      (fun count _ => machine.exec.Offers count) fun _ _ => True)
    (calls : plain → Ends (callee current instr) machine
      (fun named after => after.Ordinary named) fun _ _ => True)
    (code : Array UInt8) (pc next : UInt32) :
    Turning plain (execute reentry current code pc next instr) machine := by
  have simple : ∀ {count : Nat}, operands current instr = pure count →
      machine.exec.Holds current count := by
    intro count same
    rw [same, ends_pure] at demands
    exact demands.holds busy
  have computes : ∀ change : Stack → Stack,
      machine.exec.stack.Keeps (machine.exec.startSp + 1) (change machine.exec.stack) →
      Turning plain (compute next change) machine :=
    fun _ keeps => (deepens_compute closed keeps next).turning
  cases instr with
  | nop => exact (calm_proceed closed next).calm_deepens.turning
  | push value =>
      have holds : machine.exec.Holds current 0 := simple rfl
      exact computes (fun stack => stack.pushValue value) (Stack.keeps_pushValue holds.floor value)
  | constant index =>
      exact (deepens_pushConstant closed (simple rfl) current.owner index next).turning
  | load transfer index =>
      have holds : machine.exec.Holds current 0 := simple rfl
      have loads := Stack.keeps_load holds.floor transfer (machine.exec.localSlot index.toNat)
      exact (Moves.get_bind (deepens_compute closed loads next)).turning
  | store transfer index =>
      have holds : machine.exec.Holds current transfer.slots := simple rfl
      have stores : machine.exec.stack.Keeps (machine.exec.startSp + 1)
          (machine.exec.stack.store transfer (machine.exec.localSlot index.toNat)) :=
        Stack.keeps_store holds.room (Nat.le_add_right _ _)
      exact (Moves.get_bind (deepens_compute closed stores next)).turning
  | arrayLoad =>
      exact (deepens_then_proceed (deepens_loadElement closed (simple rfl)) next).turning
  | arrayStore kind =>
      exact (deepens_then_proceed (deepens_storeElement closed (simple rfl)) next).turning
  | discard count =>
      have holds : machine.exec.Holds current count := simple rfl
      exact computes (fun stack => stack.discard count) (Stack.keeps_discard holds.room)
  | dup count skip =>
      have holds : machine.exec.Holds current (count + skip) := simple rfl
      exact computes (fun stack => stack.dup count skip) (Stack.keeps_dup holds.room)
  | swap =>
      have holds : machine.exec.Holds current 2 := simple rfl
      exact computes Stack.swap (Stack.keeps_swap holds.room)
  | intOp op =>
      have holds : machine.exec.Holds current 2 := simple rfl
      exact (deepens_divide closed (Stack.keeps_applyInt holds.room op) next).turning
  | longOp op =>
      have holds : machine.exec.Holds current 4 := simple rfl
      exact (deepens_divide closed (Stack.keeps_applyLong holds.room op) next).turning
  | intShift op =>
      have holds : machine.exec.Holds current 2 := simple rfl
      exact computes (fun stack => stack.shiftInt op) (Stack.keeps_shiftInt holds.room op)
  | longShift op =>
      have holds : machine.exec.Holds current 3 := simple rfl
      exact computes (fun stack => stack.shiftLong op) (Stack.keeps_shiftLong holds.room op)
  | floatOp op =>
      have holds : machine.exec.Holds current 2 := simple rfl
      exact computes (fun stack => stack.combine op.onFloat) (Stack.keeps_combine holds.room _)
  | doubleOp op =>
      have holds : machine.exec.Holds current 4 := simple rfl
      exact computes (fun stack => stack.combineWide op.onDouble)
        (Stack.keeps_combineWide holds.room _)
  | negate kind =>
      have holds : machine.exec.Holds current kind.slots := simple rfl
      exact computes (fun stack => stack.negate kind) (Stack.keeps_negate holds.room)
  | convert conversion =>
      have holds : machine.exec.Holds current conversion.slots := simple rfl
      exact computes (fun stack => stack.convert conversion) (Stack.keeps_convert holds.room)
  | compareLong =>
      have holds : machine.exec.Holds current 4 := simple rfl
      exact computes Stack.compareLong (Stack.keeps_compareLong holds.room)
  | compareFloat nan =>
      have holds : machine.exec.Holds current 2 := simple rfl
      exact computes (fun stack => stack.compareFloat nan) (Stack.keeps_compareFloat holds.room nan)
  | compareDouble nan =>
      have holds : machine.exec.Holds current 4 := simple rfl
      exact computes (fun stack => stack.compareDouble nan)
        (Stack.keeps_compareDouble holds.room nan)
  | increment index delta =>
      have holds : machine.exec.Holds current 0 := simple rfl
      have increments : machine.exec.stack.Keeps (machine.exec.startSp + 1)
          (machine.exec.stack.increment (machine.exec.localSlot index.toNat) delta) :=
        Stack.keeps_increment holds.floor (Nat.le_add_right _ _) delta
      exact (Moves.get_bind (deepens_compute closed increments next)).turning
  | branch condition => exact (deepens_branch closed (simple rfl) code pc next).turning
  | jump far => exact (calm_jumpBy closed ..).calm_deepens.turning
  | jumpSubroutine far =>
      exact (deepens_jumpSubroutine closed (simple rfl) pc next _).turning
  | returnSubroutine index => exact (Moves.get_bind (calm_proceed closed _)).calm_deepens.turning
  | tableSwitch => exact (deepens_switch closed (simple rfl) pc _).turning
  | lookupSwitch => exact (deepens_switch closed (simple rfl) pc _).turning
  | leave kind =>
      cases kind with
      | none => exact turning_leaveVoid closed
      | some kind => exact turning_leave closed (simple rfl)
  | getStatic index =>
      exact (deepens_getStatic closed (simple rfl) current.owner index pc next).turning
  | putStatic index =>
      simp only [operands, ends_bind, ends_pure] at demands
      have resolves : Moves Calm (resolveField current.owner index) machine fun field after =>
          after.registry.Has field.owner ∧ machine.exec.Holds current field.kind.slots :=
        ((calm_resolveField closed current.owner index).and_ends demands).mono
          fun _ _ _ named => ⟨named.1, named.2.holds busy⟩
      exact (deepens_setStatic resolves pc next).turning
  | getField index =>
      exact (deepens_getField closed (simple rfl) current.owner index next).turning
  | putField index =>
      simp only [operands, ends_bind, ends_pure] at demands
      have resolves : Moves Calm (resolveField current.owner index) machine fun field _ =>
          machine.exec.Holds current (field.kind.slots + 1) :=
        ((calm_resolveField closed current.owner index).and_ends demands).mono
          fun _ _ _ named => named.2.holds busy
      exact (deepens_setField resolves next).turning
  | invoke mode index =>
      exact (extends_invokeInstance closed stages bounded busy demands calls pc
        next).extends_turning
  | invokeStatic index =>
      exact (extends_invokeStatic closed stages bounded busy demands calls pc next).extends_turning
  | invokeDynamic => exact (calm_mismatch closed _).calm_deepens.turning
  | newObject index =>
      exact (deepens_pushInstance closed (simple rfl) current.owner index pc next).turning
  | newArray element => exact (deepens_pushPrimitiveArray closed (simple rfl) element next).turning
  | newRefArray index =>
      exact (deepens_pushRefArray closed (simple rfl) current.owner index next).turning
  | newMultiArray index dimensions =>
      have holds : machine.exec.Holds current dimensions.toNat := simple rfl
      exact (deepens_newMultiArray closed holds index pc next).turning
  | arrayLength =>
      exact (deepens_then_proceed (deepens_arrayLength closed (simple rfl)) next).turning
  | throwRef => exact (deepens_throwRef closed (simple rfl)).turning
  | checkCast index =>
      exact (calm_checkCast closed current.owner index next).calm_deepens.turning
  | instanceOf index =>
      exact (deepens_testInstance closed (simple rfl) current.owner index next).turning
  | enterMonitor => exact (deepens_enterMonitor closed (simple rfl) next).turning
  | exitMonitor => exact (deepens_exitMonitor closed (simple rfl) next).turning

theorem turning_executeByte {byte : UInt8} {code : Array UInt8} {pc : UInt32}
    (demands : Ends (askedAt 0 (fun id _ instr => operands id instr) current code pc byte) machine
      (fun count _ => machine.exec.Offers count) fun _ _ => True)
    (calls : plain → Ends (askedAt none (fun id _ instr => callee id instr) current code pc byte)
      machine (fun named after => after.Ordinary named) fun _ _ => True) :
    Turning plain (executeByte reentry current code pc byte) machine := by
  rw [executeByte]
  split
  · exact (calm_ofDecodeFault closed _ _).calm_deepens.turning
  · next opcode found =>
      simp only [askedAt, found, ends_bind] at demands calls
      refine (((calm_ofDecode closed current (Instr.decode code pc opcode)).and_ends
        demands).and_ends (ends_of_imp calls)).turning_bind ?_
      rintro ⟨instr, next⟩ after calm ⟨⟨_, demands⟩, calls⟩
      refine turning_execute calm.closed stages (calm.config ▸ bounded) (calm.exec.method.trans busy)
        (Ends.mono demands ?_ ?_) calls code pc next
      · exact fun _ _ offers => calm.offers offers
      · exact fun _ _ _ => trivial

omit busy in
/-- An instruction that finds its operands turns the machine. -/
theorem turning_step
    (demands : Ends demand machine (fun count _ => machine.exec.Offers count) fun _ _ => True)
    (calls : plain → Ends named machine (fun named after => after.Ordinary named)
      fun _ _ => True) :
    Turning plain (step reentry) machine := by
  simp only [demand, askedNext, ends_bind, ends_get] at demands
  simp only [named, askedNext, ends_bind, ends_get] at calls
  refine Moves.turning_get ?_
  cases current : machine.exec.method with
  | none => exact (calm_fault closed _).calm_deepens.turning
  | some id =>
      simp only [current, ends_bind] at demands calls ⊢
      refine (((calm_ofDecode closed id _).and_ends demands).and_ends
        (ends_of_imp calls)).turning_bind ?_
      rintro byte first read ⟨⟨-, demands⟩, calls⟩
      refine (((calm_fetch read.closed id machine.exec.pc byte).and_ends demands).and_ends
        (ends_of_imp calls)).turning_bind ?_
      rintro fetched last fetches ⟨⟨-, demands⟩, calls⟩
      have calm := read.trans fetches
      cases fetched with
      | none => exact (Moves.pure calm.closed.calm_refl.deepens trivial).turning
      | some byte =>
          refine turning_executeByte calm.closed stages (calm.config ▸ bounded)
            (calm.exec.method.trans current) (Ends.mono demands ?_ ?_) calls
          · exact fun _ _ offers => calm.offers offers
          · exact fun _ _ _ => trivial

end Guest

/-! ## What follows an instruction -/

namespace Host

open Machine

variable {machine : Machine} (closed : machine.Closed)

include closed

theorem calm_countStep : machine.Calm machine.countStep :=
  ⟨⟨.refl _, ⟨closed.registry, closed.known, closed.heap⟩, .refl _, rfl, rfl, rfl⟩, .refl _⟩

theorem calm_protectResult (value : Value) : machine.Calm (machine.protectResult value) := by
  rw [protectResult.eq_def]
  split
  · exact closed.calm_modifyHeap closed.heap
  · exact closed.calm_refl

/-- What follows an instruction takes frames off, if it does anything to them. -/
theorem shrinks_afterStep (ended : Except Throw Step) :
    Moves Shrinks (afterStep ended) machine fun _ _ => True := by
  have counted := calm_countStep closed
  cases ended with
  | ok step =>
      cases step with
      | blocked => exact Moves.pure closed.calm_refl.shrinks trivial
      | next =>
          refine Moves.modify_bind counted.shrinks (Moves.get_bind ?_)
          split
          · have yielded : machine.countStep.Calm { machine.countStep with yieldRequested := false } :=
              ⟨⟨.refl _, ⟨closed.registry, closed.known, closed.heap⟩, .refl _, rfl, rfl, rfl⟩,
                .refl _⟩
            refine Moves.modify_bind yielded.shrinks (Moves.get_bind ?_)
            split <;> exact Moves.pure yielded.closed.calm_refl.shrinks trivial
          · exact Moves.pure counted.closed.calm_refl.shrinks trivial
      | returned value =>
          have kept := counted.trans (calm_protectResult counted.closed value)
          exact Moves.modify_bind kept.shrinks (Moves.pure kept.closed.calm_refl.shrinks trivial)
      | suspended =>
          exact Moves.modify_bind counted.shrinks (Moves.pure counted.closed.calm_refl.shrinks trivial)
  | error thrown =>
      cases thrown with
      | exception ref =>
          have stops : Moves Shrinks (modifyGet fun machine => machine.stopOnThrow ref : Host Bool)
              machine.countStep fun _ _ => True :=
            Moves.modifyGet (Guest.calm_stopOnThrow counted.closed ref).shrinks trivial
          refine Moves.modify_bind counted.shrinks (stops.bind ?_)
          intro stopped after moved _
          split
          · exact Moves.pure moved.closed.calm_refl.shrinks trivial
          · refine (shrinks_unwind moved.closed ref).bind ?_
            exact fun _ _ unwound _ => Moves.pure unwound.closed.calm_refl.shrinks trivial
      | fatal error =>
          have abandoned := counted.shrinks.trans (shrinks_abandonExecution counted.closed)
          exact Moves.modify_bind abandoned (Moves.throw abandoned.closed.calm_refl.shrinks)

/-- An exception that was kept back goes on being thrown. -/
theorem shrinks_resume (ref : Ref) :
    Moves Shrinks (do
      modify fun machine => machine.modifyExec fun exec => { exec with pendingException := none }
      unwind ref
      pure none : Host (Option SliceOutcome)) machine fun _ _ => True := by
  have taken : machine.Calm (machine.modifyExec fun exec =>
      { exec with pendingException := none }) := closed.calm_modifyExec ⟨rfl, rfl, rfl, rfl⟩
  refine Moves.modify_bind taken.shrinks ((shrinks_unwind taken.closed ref).bind ?_)
  exact fun _ _ unwound _ => Moves.pure unwound.closed.calm_refl.shrinks trivial

theorem calm_clearPending : machine.Calm (machine.modifyHeap Heap.clearPending) :=
  closed.calm_modifyHeap closed.heap

end Host

namespace Machine

/-- Whether the next instruction of the running execution finds its operands in the
current frame. -/
def Ready (machine : Machine) : Prop :=
  machine.exec.pendingException = none →
    Ends Guest.demand (machine.modifyHeap Heap.clearPending)
      (fun count _ => machine.exec.Offers count) fun _ _ => True

/-- Whether the next instruction of the running execution does not name a class
initializer, if it is a call. -/
def Discreet (machine : Machine) : Prop :=
  machine.exec.pendingException = none →
    Ends Guest.named (machine.modifyHeap Heap.clearPending)
      (fun named after => after.Ordinary named) fun _ _ => True

variable {plain : Prop} {machine : Machine} (closed : machine.Closed)
  (bounded : machine.config.stackSlots ≤ FrameContext.encodablePositions)
  {reentry : Reentry} (stages : reentry.Stages)

include closed bounded stages

/-- A step of an execution turns the machine, however it ends. -/
theorem Ready.turns_runStep (ready : machine.Ready) (discreet : plain → machine.Discreet) :
    Moves (Turns plain) (Host.runStep reentry) machine fun _ _ => True := by
  have cleared := Host.calm_clearPending closed
  rw [Moves, Host.runStep, ends_bind, ends_modify, ends_bind, ends_get]
  have same : (machine.modifyHeap Heap.clearPending).exec.pendingException =
      machine.exec.pendingException := rfl
  rw [same]
  cases pending : machine.exec.pendingException with
  | some ref =>
      have resumes := Host.shrinks_resume cleared.closed ref
      refine Ends.mono resumes ?_ ?_
      · intro _ _ shrinks
        exact ⟨cleared.turns_trans (shrinks.1.turns cleared.closed), trivial⟩
      · exact fun _ _ shrinks => cleared.turns_trans (shrinks.turns cleared.closed)
  | none =>
      have steps : Turning plain (Guest.step reentry) (machine.modifyHeap Heap.clearPending) :=
        Guest.turning_step cleared.closed stages bounded (ready pending)
          fun calls => discreet calls pending
      have attempts : Ends (Host.attempt (Guest.step reentry))
          (machine.modifyHeap Heap.clearPending)
          (fun _ after => machine.Turns plain after) fun _ _ => False := by
        rw [Host.ends_attempt]
        refine Ends.mono steps ?_ ?_
        · exact fun _ _ turns => cleared.turns_trans turns
        · exact fun _ _ extended => (cleared.deepens.trans_extends extended).turns
      rw [ends_bind]
      refine Ends.mono attempts ?_ (fun _ _ never => never.elim)
      intro ended between turns
      refine Ends.mono (Host.shrinks_afterStep turns.closed ended) ?_ ?_
      · exact fun _ _ shrinks => ⟨turns.shrinks shrinks.1, trivial⟩
      · exact fun _ _ shrinks => turns.shrinks shrinks

end Machine

end Jvm
