import Jvm.Proofs.Machine.Runs

/-!
# Frame chains along runs

What a call saves of its caller stays in its frame, in every run, until the frame is
left. So what is read back on the way down names the callers that there were, and
each of them is a linked method. All this rests on instructions that find their
operands in the current frame: one that takes what lies below reaches into the
saved context.
-/

namespace Jvm

namespace Execution

/-- What a live frame has saved of its caller, by its distance from the bottom. -/
def savedAt (exec : Execution) (index : Nat) : Option SavedFrame := exec.saved.reverse[index]?

/-- Whether an execution is in a method, or comes back to it once frames are left. -/
def Calls (exec : Execution) (id : MethodId) : Prop :=
  exec.method = some id ∨ ∃ frame ∈ exec.saved, frame.2.caller = some id

theorem saved_of_host {exec : Execution} (idle : exec.method = none) : exec.saved = [] := by
  rw [saved, frames, Frame.all.eq_def, idle]
  rfl

/-- A frame of one chain is a frame of a longer one. -/
theorem savedAt_eq_of_suffix {exec other : Execution} (suffix : exec.saved <:+ other.saved)
    {index : Nat} (live : index < exec.saved.length) : other.savedAt index = exec.savedAt index := by
  obtain ⟨above, same⟩ := suffix
  rw [savedAt, savedAt, ← same, List.reverse_append, List.getElem?_append_left]
  rw [List.length_reverse]
  exact live

theorem savedAt_of_append {exec : Execution} {above callers : List SavedFrame} {frame : SavedFrame}
    (same : exec.saved = above ++ frame :: callers) :
    exec.savedAt callers.length = some frame := by
  rw [savedAt, same, List.reverse_append, List.reverse_cons, List.append_assoc,
    List.getElem?_append_right (Nat.le_of_eq List.length_reverse), List.length_reverse,
    Nat.sub_self]
  rfl

theorem mem_saved_of_savedAt {exec : Execution} {index : Nat} {frame : SavedFrame}
    (found : exec.savedAt index = some frame) : frame ∈ exec.saved :=
  List.mem_reverse.mp (List.mem_of_getElem? found)

/-- Whether a frame of one execution is a frame of another one, with all that lies below
it. -/
structure KeepsAt (exec : Execution) (index : Nat) (other : Execution) : Prop where
  saved : other.savedAt index = exec.savedAt index
  cells : ∀ frame, exec.savedAt index = some frame →
    ∀ place ≤ frame.1, other.stack.cell place = exec.stack.cell place

namespace KeepsAt

variable {first second third : Execution} {index : Nat}

theorem refl (exec : Execution) (index : Nat) : exec.KeepsAt index exec :=
  ⟨rfl, fun _ _ _ _ => rfl⟩

theorem symm (keeps : first.KeepsAt index second) : second.KeepsAt index first where
  saved := keeps.saved.symm
  cells frame found place inside := (keeps.cells frame (keeps.saved ▸ found) place inside).symm

theorem trans (left : first.KeepsAt index second) (right : second.KeepsAt index third) :
    first.KeepsAt index third where
  saved := right.saved.trans left.saved
  cells frame found place inside :=
    (right.cells frame (left.saved.trans found) place inside).trans
      (left.cells frame found place inside)

end KeepsAt

theorem Under.keepsAt {exec other : Execution} (under : exec.Under other) {index : Nat}
    (live : index < exec.saved.length) : exec.KeepsAt index other where
  saved := savedAt_eq_of_suffix under.saved live
  cells frame found := under.agrees frame (mem_saved_of_savedAt found)

end Execution

namespace Stack.Chains

/-- Every caller of a chain is a linked method. -/
theorem hasMethod {stack : Stack} {table : ClassTable} {startSp : Nat} {saved : List SavedFrame}
    (chains : stack.Chains table startSp saved) {frame : SavedFrame} (member : frame ∈ saved)
    {id : MethodId} (called : frame.2.caller = some id) : table.HasMethod id := by
  induction chains with
  | host room host bottom =>
      cases List.mem_singleton.mp member
      cases host.symm.trans called
  | caller found linked below chains ih =>
      rcases List.mem_cons.mp member with rfl | member
      · cases found.symm.trans called
        exact linked
      · exact ih member

end Stack.Chains

namespace Machine

/-- Whether a frame of an execution is live, by its distance from the bottom. -/
def Lives (machine : Machine) (id : ExecId) (index : Nat) : Prop :=
  ∀ exec ∈ machine.executions, exec.id = id → index < exec.saved.length

/-- Whether a frame lives on while a machine goes on. -/
structure Spans (bounds : Bounds) (id : ExecId) (index : Nat) (before after : Machine) : Prop where
  evolves : Evolves bounds before after
  created : before.nextExec ≠ id
  first : before.Lives id index
  last : after.Lives id index

namespace Sound

variable {bounds : Bounds} {start machine : Machine}

/-- Every method of a frame is linked. -/
theorem hasMethod_of_calls (sound : machine.Sound) (fit : machine.registry.Fit) {exec : Execution}
    (member : exec ∈ machine.executions) {id : MethodId} (calls : exec.Calls id) :
    machine.registry.HasMethod id := by
  have stands := sound.stands fit exec member
  rcases calls with current | ⟨frame, found, called⟩
  · exact stands.linked id current
  · rcases Option.eq_none_or_eq_some exec.method with idle | ⟨current, busy⟩
    · rw [Execution.saved_of_host idle] at found
      cases found
    · exact (stands.chains current busy).hasMethod found called

/-- A call puts on the chain what it saves. -/
theorem saved_of_pushFrame (sound : machine.Sound) (fit : machine.registry.Fit) {id : MethodId}
    (linked : machine.registry.HasMethod id)
    (offers : machine.exec.Offers (machine.method id).frameArgSlots.toNat)
    {callerPc returnPc : UInt32} {entered : Machine}
    (enters : Guest.pushFrame id callerPc returnPc machine = .ok ⟨⟩ entered) :
    ∃ startSp, entered.exec.saved =
      (startSp, ⟨machine.exec.method, callerPc, returnPc, machine.exec.startSp⟩) ::
        machine.exec.saved := by
  obtain ⟨claimed, bounded, rfl⟩ := ends_of_ok enters Guest.ends_pushFrame
  have stands := sound.stands fit machine.exec (.head _)
  have deeper := stands.enter linked claimed bounded offers
    (fun caller current => fit.encodable_of_hasMethod (stands.linked caller current))
    callerPc returnPc
  exact ⟨_, deeper.saved_eq⟩

/-- A live frame keeps what it has saved, for as long as it lives, and all that lies below
it. -/
theorem kept_of_spans (sound : start.Sound) {id : ExecId} {index : Nat}
    (run : Relation.ReflTransGen (Spans bounds id index) start machine) (fit : machine.registry.Fit)
    {exec : Execution} (member : exec ∈ machine.executions) (same : exec.id = id) :
    ∃ old ∈ start.executions, old.id = id ∧ old.KeepsAt index exec := by
  induction run generalizing exec with
  | refl => exact ⟨exec, member, same, .refl exec index⟩
  | @tail before after run spans ih =>
      have reaches := Relation.ReflTransGen.mono (fun _ _ spans => Spans.evolves spans) _ _ run
      have reached := sound.of_reaches reaches
      have follows := reached.follows spans.evolves
      have fitBefore := fit_of_growsTo reached.closed follows.sound.closed follows.grows fit
      have live := spans.last exec member same
      rcases follows.continues fit exec member with idle | created | ⟨old, found, kept, under⟩
      · rw [Execution.saved_of_host idle] at live
        cases live
      · exact (spans.created (created.symm.trans same)).elim
      · obtain ⟨older, oldest, sameId, unchanged⟩ := ih fitBefore found (kept.trans same)
        refine ⟨older, oldest, sameId, unchanged.trans ?_⟩
        have lived := spans.first old found (kept.trans same)
        rcases under with longer | shorter
        · exact longer.keepsAt lived
        · exact (shorter.keepsAt live).symm

theorem savedAt_of_spans (sound : start.Sound) {id : ExecId} {index : Nat}
    (run : Relation.ReflTransGen (Spans bounds id index) start machine) (fit : machine.registry.Fit)
    {exec : Execution} (member : exec ∈ machine.executions) (same : exec.id = id) :
    ∃ old ∈ start.executions, old.id = id ∧ exec.savedAt index = old.savedAt index := by
  obtain ⟨old, found, sameId, kept⟩ := sound.kept_of_spans run fit member same
  exact ⟨old, found, sameId, kept.saved⟩

end Sound

/-! ## A machine in a frame -/

/-- A static method that takes nothing. -/
def nullary (code : Array UInt8) : Method where
  owner := ⟨0⟩
  name := "f"
  descriptor := "()V"
  flags := Access.isStatic
  params := []
  ret := none
  argSlots := 0
  code := some { maxStack := 2, maxLocals := 0, bytecode := code }
  native := none

theorem frameArgSlots_nullary (code : Array UInt8) : (nullary code).frameArgSlots = 0 := by
  change (nullary #[]).frameArgSlots = 0
  decide

/-- A class with these methods. -/
def classOf (methods : List Method) : Class :=
  { id := ⟨0⟩, name := "F", flags := 0, superclass := none, interfaces := []
    methods := ⟨methods⟩ }

/-- A machine with one class, in the frame of its last method, which the host has
called. -/
def within (code : Array UInt8) (others : List Method) : Machine where
  config := {}
  registry := { classes := #[classOf (others ++ [nullary code])] }
  known := default
  heap := Heap.ofConfig {}
  exec := (Execution.idle Execution.mainId 64).enter (nullary code)
    ⟨⟨0⟩, UInt16.ofNat others.length⟩ 0 0

section

variable (code : Array UInt8) (others : List Method)

theorem closed_within : (within code others).Closed := by
  have only : ∀ id, (within code others).registry.Has id → id = ⟨0⟩ := by
    rintro ⟨index⟩ inside
    cases Nat.lt_one_iff.mp inside
    rfl
  have first : (within code others).registry.Has ⟨0⟩ := Nat.one_pos
  refine ⟨⟨⟨?_, ?_, ?_⟩, ?_⟩, ?_, ?_⟩
  · intro id known
    cases only id known
    rfl
  · intro id known
    cases only id known
    refine ⟨?_, ?_, ?_, ?_⟩
    · intro above found
      cases found
    · intro iface member
      cases member
    · intro info component found
      cases found
    · intro index
      trivial
  · intro name id found
    cases Std.HashMap.getElem?_empty.symm.trans found
  · intro key target held
    cases Std.HashMap.getElem?_empty.symm.trans held
  · exact ⟨first, first, first, first, first, first, first⟩
  · intro index object held
    cases held

theorem stands_within :
    (within code others).exec.Stands (within code others).registry.toClassTable
      [(3, ⟨none, 0, 0, 0⟩)] := by
  have idle : (Execution.idle Execution.mainId 64).Stands
      (within code others).registry.toClassTable [] :=
    Execution.stands_of_idle rfl rfl (by decide)
  have linked : (within code others).registry.HasMethod ⟨⟨0⟩, UInt16.ofNat others.length⟩ := by
    refine ⟨Nat.one_pos, ?_⟩
    change _ < (others ++ [nullary code]).length
    rw [UInt16.toNat_ofNat', List.length_append]
    exact Nat.lt_succ_of_le (Nat.mod_le _ _)
  have enters := @Execution.Stands.enter _ _ _ idle (nullary code) _ linked
  rw [frameArgSlots_nullary] at enters
  refine enters (Nat.zero_le 0) (Nat.zero_le 64) ?_ ?_ 0 0
  · rintro _ ⟨⟩
  · rintro _ ⟨⟩

theorem sound_within : (within code others).Sound where
  closed := closed_within code others
  bounded := by
    change 64 * 1024 ≤ FrameContext.encodablePositions
    decide
  stands _ exec member := by
    cases List.mem_singleton.mp member
    have stands := stands_within code others
    rw [stands.saved_eq]
    exact stands

theorem fit_within : (within code []).registry.Fit := by
  refine ⟨Nat.le_of_ble_eq_true rfl, ?_⟩
  rintro ⟨index⟩ method inside found
  cases Nat.lt_one_iff.mp inside
  have none : ((within code []).registry.get ⟨0⟩).initializer? = none := by
    simp [within, ClassTable.get, classOf, Class.initializer?, Class.declaredMethod?, nullary]
  cases none.symm.trans found

end

/-! ## What runs preserve -/

/-- Frames keep what they have saved. A machine starts sound; whatever a sound machine
reaches names linked classes only, and the methods of its frames are linked; a call
saves its caller, and until the frame of the call is left its context is the same. It
reaches what it does where no native is run outside a frame, as `Evolves` says. -/
theorem frames_kept (bounds : Bounds) :
    (∀ (config : Config) (classes : ClassPath) (machine : Machine),
        config.stackSlots ≤ FrameContext.encodablePositions →
        Machine.start config classes = .ok machine → machine.Sound) ∧
      ∀ start machine : Machine, start.Sound → Reaches bounds start machine →
        machine.registry.Fit →
        machine.Closed ∧
          (∀ exec ∈ machine.executions, ∀ id, exec.Calls id →
            machine.registry.HasMethod id) ∧
          (∀ id callerPc returnPc entered, machine.registry.HasMethod id →
            machine.exec.Offers (machine.method id).frameArgSlots.toNat →
            Guest.pushFrame id callerPc returnPc machine = .ok ⟨⟩ entered →
            ∃ startSp, entered.exec.saved =
              (startSp, ⟨machine.exec.method, callerPc, returnPc, machine.exec.startSp⟩) ::
                machine.exec.saved) ∧
          ∀ id index, Relation.ReflTransGen (Spans bounds id index) start machine →
            ∀ exec ∈ machine.executions, exec.id = id →
              ∃ old ∈ start.executions, old.id = id ∧
                exec.savedAt index = old.savedAt index := by
  constructor
  · exact fun config classes machine bounded started => sound_of_start bounded started
  · intro start machine sound run fit
    have reached := sound.of_reaches run
    refine ⟨reached.closed, ?_, ?_, ?_⟩
    · exact fun exec member id calls => reached.hasMethod_of_calls fit member calls
    · exact fun id callerPc returnPc entered linked offers enters =>
        reached.saved_of_pushFrame fit linked offers enters
    · exact fun id index spans exec member same => sound.savedAt_of_spans spans fit member same

/-- The machine after a constant was pushed. -/
def pushed : Machine :=
  (within #[0x07] []).countStep.modifyExec fun exec =>
    { exec with stack := exec.stack.pushValue (.int 4), pc := 1 }

theorem stands_pushed :
    pushed.exec.Stands pushed.registry.toClassTable [(3, ⟨none, 0, 0, 0⟩)] := by
  refine (stands_within #[0x07] []).keep rfl rfl (Stack.limit_pushValue _ _) ?_
  exact fun _ _ room => Stack.keeps_pushValue room (.int 4)

set_option maxRecDepth 4000 in
theorem runStep_within_push (reentry : Reentry) :
    Host.runStep reentry (within #[0x07] []) = .ok none pushed := by
  rfl

set_option maxRecDepth 4000 in
theorem ready_within_push : (within #[0x07] []).Ready := by
  intro _
  have asks : Guest.demand ((within #[0x07] []).modifyHeap Heap.clearPending) =
      .ok 0 (within #[0x07] []) := rfl
  exact Ends.of_ok asks (stands_within #[0x07] []).offers

theorem frames_kept_push :
    Host.runStep (Bounds.reentry {}) (within #[0x07] []) = .ok none pushed ∧ pushed.Closed ∧
      pushed.exec.stack.sp = 5 ∧
      pushed.exec.savedAt 0 = (within #[0x07] []).exec.savedAt 0 := by
  have runs := runStep_within_push
  have evolves : Evolves {} (within #[0x07] []) pushed := by
    refine .step ready_within_push ((runs _).trans (runs _).symm) (.inl ⟨none, runs _⟩)
  have lives : (within #[0x07] []).Lives Execution.mainId 0 := by
    intro exec member _
    cases List.mem_singleton.mp member
    rw [(stands_within #[0x07] []).saved_eq]
    exact Nat.one_pos
  have lives' : pushed.Lives Execution.mainId 0 := by
    intro exec member _
    cases List.mem_singleton.mp member
    rw [stands_pushed.saved_eq]
    exact Nat.one_pos
  have spans : Spans {} Execution.mainId 0 (within #[0x07] []) pushed :=
    ⟨evolves, by decide, lives, lives'⟩
  obtain ⟨closed, -, -, kept⟩ := (frames_kept {}).2 _ _ (sound_within #[0x07] []) (.single evolves)
    (fit_within #[0x07])
  obtain ⟨old, member, -, same⟩ := kept _ 0 (.single spans) pushed.exec (.head _) rfl
  cases List.mem_singleton.mp member
  exact ⟨runs _, closed, by decide, same⟩

/-! ## What frames do not survive -/

/-- A class initializer that is not static. -/
def receiving : Method := { nullary #[0xB1] with name := "<clinit>", flags := 0 }

/-- A machine with more classes than a saved context tells apart, in a frame of the
last one. -/
def crowded : Machine :=
  { within #[] [] with
    registry := { classes := Array.replicate 0x8001 (classOf [nullary #[]]) }
    exec := {
      id := Execution.mainId, stack := { sp := 4, limit := 64 }
      method := some ⟨⟨0x8000⟩, 0⟩, startSp := 3 } }

theorem enter_initializer : Guest.pushInitializer ⟨0⟩ 0 (within #[] [receiving]) =
    .ok true ((within #[] [receiving]).modifyExec fun exec =>
      exec.enter receiving ⟨⟨0⟩, 0⟩ 0 0) := by
  have found : ((within #[] [receiving]).cls ⟨0⟩).initializer? = some ⟨⟨0⟩, 0⟩ := by
    simp [within, cls, ClassTable.get, classOf, Class.initializer?, Class.declaredMethod?, nullary,
      receiving, List.findIdx?_cons]
  have claimed : receiving.frameArgSlots.toNat ≤ (within #[] [receiving]).exec.stack.sp := by
    decide
  have admits : (within #[] [receiving]).exec.Admits receiving
      { maxStack := 2, bytecode := #[0xB1] } := by
    rw [Execution.Admits]
    decide
  have enters : Guest.pushFrame ⟨⟨0⟩, 0⟩ 0 0 (within #[] [receiving]) =
      .ok ⟨⟩ ((within #[] [receiving]).modifyExec fun exec =>
        exec.enter receiving ⟨⟨0⟩, 0⟩ 0 0) := Guest.pushFrame_of_admits rfl claimed admits
  simp only [Guest.pushInitializer, bind, EStateM.bind, run_get, found, Guest.onThrow, enters, pure,
    EStateM.pure]

theorem enter_crowded : Guest.pushFrame ⟨⟨0⟩, 0⟩ 0 0 crowded =
    .ok ⟨⟩ (crowded.modifyExec fun exec => exec.enter (nullary #[]) ⟨⟨0⟩, 0⟩ 0 0) := by
  have same : crowded.method ⟨⟨0⟩, 0⟩ = nullary #[] := by
    simp [crowded, method, ClassTable.method, ClassTable.get, classOf]
  have admits : crowded.exec.Admits (nullary #[]) { maxStack := 2, bytecode := #[] } := by
    rw [Execution.Admits]
    decide
  have enters := @Guest.pushFrame_of_admits crowded ⟨⟨0⟩, 0⟩ 0 0 { maxStack := 2 }
  rw [same] at enters
  exact enters rfl (by decide) admits

theorem hasMethod_crowded : crowded.registry.HasMethod ⟨⟨0x8000⟩, 0⟩ := by
  have inside : crowded.registry.Has ⟨0x8000⟩ := by
    rw [ClassTable.Has, ClassTable.size, crowded, Array.size_replicate]
    exact Nat.lt_succ_self 0x8000
  have last : crowded.registry.get ⟨0x8000⟩ = classOf [nullary #[]] := by
    simp [crowded, ClassTable.get]
  refine ⟨inside, ?_⟩
  rw [last]
  exact Nat.one_pos

set_option maxRecDepth 4000 in
/-- What a frame has saved is lost where an instruction finds no operands above it, where
an initializer takes a receiver, and where the caller's class has no room in it. -/
theorem context_lost :
    (∃ before after : Machine, before.Sound ∧ before.registry.Fit ∧
        before.exec.method = some ⟨⟨0⟩, 0⟩ ∧
        Host.runSteps (Bounds.reentry {}) 2 before = .ok .yielded after ∧
        after.exec.method = before.exec.method ∧ after.exec.startSp = before.exec.startSp ∧
        FrameContext.read after.exec.stack before.exec.startSp ≠
          FrameContext.read before.exec.stack before.exec.startSp) ∧
      (∃ before after : Machine, before.Sound ∧ before.exec.method = some ⟨⟨0⟩, 1⟩ ∧
        Guest.pushInitializer ⟨0⟩ 0 before = .ok true after ∧
        FrameContext.read after.exec.stack before.exec.startSp ≠
          FrameContext.read before.exec.stack before.exec.startSp) ∧
      ∃ before after : Machine, ∃ caller : MethodId, before.registry.HasMethod caller ∧
        before.exec.method = some caller ∧
        Guest.pushFrame ⟨⟨0⟩, 0⟩ 0 0 before = .ok ⟨⟩ after ∧
        (FrameContext.read after.exec.stack after.exec.startSp).caller ≠ some caller := by
  refine ⟨?_, ?_, ?_⟩
  · refine ⟨within #[0x57, 0x07] [], _, sound_within _ _, fit_within _, rfl, rfl, rfl, rfl, ?_⟩
    decide
  · refine ⟨within #[] [receiving], _, sound_within _ _, rfl, enter_initializer, ?_⟩
    decide +kernel
  · refine ⟨crowded, _, ⟨⟨0x8000⟩, 0⟩, hasMethod_crowded, rfl, enter_crowded, ?_⟩
    decide

end Machine

end Jvm
