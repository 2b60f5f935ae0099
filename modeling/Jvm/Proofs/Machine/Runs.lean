import Mathlib.Data.List.DropRight
import Mathlib.Logic.Relation
import Jvm.Machine.Host
import Jvm.Proofs.Machine.Sound

/-!
# Runs

A run is any sequence of what interpreter and host do: instructions, calls that
are staged, threads that are prepared, executions that change places, and what
the host does besides. Instructions and calls have to find their operands in the
current frame, which nothing in the machine checks. Every machine of a run that
starts sound is sound, and a live frame keeps what it has saved of its caller.
-/

namespace Jvm

/-- Whether a step from a state ends in another one, be it with an error. -/
def Leaves {ε σ α : Type} (step : EStateM ε σ α) (state after : σ) : Prop :=
  (∃ value, step state = .ok value after) ∨ ∃ raised, step state = .error raised after

theorem Moves.leaves {ε σ α : Type} {related : σ → σ → Prop} {step : EStateM ε σ α} {state : σ}
    {returned : α → σ → Prop} (moves : Moves related step state returned) {after : σ}
    (leaves : Leaves step state after) : related state after := by
  rcases leaves with ⟨value, ran⟩ | ⟨raised, ran⟩
  · exact (ends_of_ok ran moves).1
  · have reached := ends_of_error ran moves
    exact reached

namespace Machine

/-- Whether a machine differs from another one in what is neither classes, objects
nor frames: clocks, consoles, results, handles, settings of the debugger. -/
structure Adjusts (before after : Machine) : Prop where
  registry : after.registry = before.registry
  known : after.known = before.known
  objects : after.heap.objects = before.heap.objects
  exec : before.exec.Untouched after.exec
  parked : after.parked = before.parked
  config : after.config = before.config
  nextExec : after.nextExec = before.nextExec

theorem Adjusts.stays {before after : Machine} (adjusts : before.Adjusts after)
    (closed : before.Closed) : before.Stays after where
  grows := by
    rw [adjusts.registry]
    exact .refl _
  closed := by
    refine ⟨?_, ?_, ?_⟩
    · rw [adjusts.registry]
      exact closed.registry
    · rw [adjusts.registry, adjusts.known]
      exact closed.known
    · rw [adjusts.registry]
      exact closed.heap.congr adjusts.objects
  exec := adjusts.exec
  parked := adjusts.parked
  config := adjusts.config
  nextExec := adjusts.nextExec

theorem Adjusts.calm {before after : Machine} (adjusts : before.Adjusts after)
    (closed : before.Closed) : before.Calm after where
  toStays := adjusts.stays closed
  rests := by
    rw [adjusts.registry]
    exact .refl _

/-- Whether a call of a method runs nothing at once: it is not native, or has no
implementation. -/
def Defers (machine : Machine) (id : MethodId) : Prop :=
  (machine.method id).isNative = true → machine.lacksNative id = true

/-- What may happen to a machine next. A call that is staged on an idle execution pushes a frame;
were its method a native that is bound, it would run at once, in no frame, on slots that nobody
has saved. So a step is one that starts no thread whose `run` is such a native (`plain`: the
machinery that refuses to run one does the same), and such a native is neither called by the host
nor prepared (`Defers`). Natives that the code of a frame calls may be any. -/
inductive Evolves (bounds : Bounds) (before : Machine) : Machine → Prop
  /-- The running execution goes on by an instruction. -/
  | step {after : Machine} (ready : before.Ready)
      (plain : Host.runStep bounds.reentry before =
        Host.runStep bounds.reentry.interpreting before)
      (leaves : Leaves (Host.runStep bounds.reentry) before after) : Evolves bounds before after
  /-- A call is staged on the running execution. -/
  | enter {id : MethodId} {arguments : List Value} {complete : Host Value} {after : Machine}
      (linked : before.registry.HasMethod id) (defers : before.Defers id)
      (leaves : Leaves (Host.enterMethod bounds.reentry complete id arguments) before after) :
      Evolves bounds before after
  /-- Initializers are staged on the running execution, which is idle. -/
  | stageInitializers {id : ClassId} {after : Machine} (known : before.registry.Has id)
      (idle : before.exec.method = none)
      (leaves : Leaves (do Host.settle (← Host.attempt (Guest.ensureInitialized id 0)))
        before after) :
      Evolves bounds before after
  /-- A thread is prepared. -/
  | prepare {id : MethodId} {arguments : List Value} {after : Machine}
      (linked : before.registry.HasMethod id) (defers : before.Defers id)
      (leaves : Leaves (bounds.reentry.prepare id arguments) before after) :
      Evolves bounds before after
  /-- A parked execution runs. -/
  | resume {id : ExecId} {exec : Execution} {after : Machine}
      (found : before.unpark id = some (exec, after)) :
      Evolves bounds before (after.switchTo exec)
  /-- The running execution makes room for another one, and waits. -/
  | park (id : ExecId) :
      Evolves bounds before ((before.switchBack id).2.park (before.switchBack id).1)
  /-- The running execution makes room for another one, and is gone. -/
  | drop (id : ExecId) : Evolves bounds before (before.switchBack id).2
  /-- The running execution ends. -/
  | abandon : Evolves bounds before before.abandonExecution
  /-- The running execution starts over. -/
  | reset : Evolves bounds before (before.modifyExec Execution.reset)
  /-- An exception is thrown on the running execution. -/
  | unwind {ref : Ref} {after : Machine} (leaves : Leaves (Host.unwind ref) before after) :
      Evolves bounds before after
  /-- The host changes the stack of an idle execution. -/
  | operands {change : Stack → Stack} (idle : before.exec.method = none)
      (limit : (change before.exec.stack).limit = before.exec.stack.limit) :
      Evolves bounds before (before.modifyStack change)
  /-- The host defines a class. -/
  | define {bytes : Array UInt8} {after : Machine}
      (leaves : Leaves (Host.defineClass bytes) before after) : Evolves bounds before after
  /-- The host looks up a class. -/
  | load {name : String} {after : Machine} (leaves : Leaves (Host.load name) before after) :
      Evolves bounds before after
  /-- The host makes a string. -/
  | newString {text : String} {after : Machine}
      (leaves : Leaves (Host.newString text) before after) : Evolves bounds before after
  /-- The host makes an array. -/
  | newIntArray {values : Array Int32} {after : Machine}
      (leaves : Leaves (Host.newIntArray values) before after) : Evolves bounds before after
  /-- The host makes an array of strings. -/
  | newStringArray {texts : List String} {after : Machine}
      (leaves : Leaves (Host.newStringArray texts) before after) : Evolves bounds before after
  /-- The host binds a native. -/
  | registerNative {className name descriptor : String} {native : Native} {after : Machine}
      (leaves : Leaves (Host.registerNative className name descriptor native) before after) :
      Evolves bounds before after
  /-- The implementation of a native method is looked up. -/
  | bindNative {id : MethodId} {after : Machine}
      (leaves : Leaves (Guest.bindNative id) before after) : Evolves bounds before after
  /-- A native of the machine's own runs for the host. -/
  | builtin {own : Builtin} {arguments : NativeArgs} {after : Machine}
      (plain : own.run bounds.reentry arguments before =
        own.run bounds.reentry.interpreting arguments before)
      (leaves : Leaves (own.run bounds.reentry arguments) before after) :
      Evolves bounds before after
  /-- The target of a call is selected. -/
  | select {receiver : ClassId} {resolved : MethodId} (known : before.registry.Has receiver)
      (linked : before.registry.HasMethod resolved) :
      Evolves bounds before
        { before with registry := (before.registry.resolveVirtual receiver resolved).2 }
  /-- Garbage is collected. -/
  | collect : Evolves bounds before before.collectGarbage.2
  /-- Something else happens. -/
  | adjust {after : Machine} (adjusts : before.Adjusts after) : Evolves bounds before after

/-- Whether one machine comes from another one by any number of steps. -/
abbrev Reaches (bounds : Bounds) : Machine → Machine → Prop := Relation.ReflTransGen (Evolves bounds)

/-- What may happen to a machine next where no class initializer is called like other
methods: none is named by a call instruction, called by the host or run by a thread. -/
structure Proceeds (bounds : Bounds) (before after : Machine) : Prop where
  evolves : Evolves bounds before after
  instructions : Leaves (Host.runStep bounds.reentry) before after → before.Discreet
  calls : ∀ (id : MethodId) (arguments : List Value) (complete : Host Value),
    before.exec.method = none → Host.accepts (before.method id) arguments = true →
    Leaves (Host.enterMethod bounds.reentry complete id arguments) before after →
    (before.method id).isInitializer = false
  threads : ∀ (id : MethodId) (arguments : List Value),
    Host.accepts (before.method id) arguments = true →
    Leaves (bounds.reentry.prepare id arguments) before after →
    (before.method id).isInitializer = false

end Machine

/-! ## What the host does besides -/

namespace Host

open Machine

variable {machine : Machine} (closed : machine.Closed)

include closed

theorem calm_defineClass (bytes : Array UInt8) :
    Moves Calm (defineClass bytes) machine fun id after => after.registry.Has id :=
  calm_linking closed (Registry.links_defineClass closed.registry bytes)

theorem calm_newString (text : String) : Moves Calm (newString text) machine fun _ _ => True :=
  moves_ofGuest (Guest.calm_newString closed text)

theorem calm_newIntArray (values : Array Int32) :
    Moves Calm (newIntArray values) machine fun _ _ => True := by
  refine (calm_load closed "[I").bind ?_
  intro id loaded calm known
  have fills : Moves Calm (do
      let array ← Guest.newZeroArray id values.size
      modify fun machine => machine.modifyHeap fun heap => heap.modifyArray array fun data =>
        (data.copyFrom? 0 (.ints values) 0 values.size).getD data
      pure array) loaded fun _ _ => True := by
    refine (Guest.calm_newZeroArray calm.closed known values.size).bind ?_
    intro array made allocated _
    have stored : made.Calm (made.modifyHeap fun heap => heap.modifyArray array fun data =>
        (data.copyFrom? 0 (.ints values) 0 values.size).getD data) :=
      allocated.closed.calm_modifyHeap (allocated.closed.heap.modifyArray array _)
    exact Moves.modify_bind stored (Moves.pure stored.closed.calm_refl trivial)
  exact moves_ofGuest fills

theorem calm_storeStrings (array : Ref) (index : Nat) (texts : List String) :
    Moves Calm (storeStrings array index texts) machine fun _ _ => True := by
  induction texts generalizing machine index with
  | nil => exact Moves.pure closed.calm_refl trivial
  | cons text rest ih =>
      refine (Guest.calm_newString closed text).bind ?_
      intro string made calm _
      have stored : made.Calm (made.modifyHeap fun heap => heap.modifyArray array fun data =>
          data.set index (.ref (some string))) :=
        calm.closed.calm_modifyHeap (calm.closed.heap.modifyArray array _)
      exact Moves.modify_bind stored (ih stored.closed (index + 1))

theorem calm_newStringArray (texts : List String) :
    Moves Calm (newStringArray texts) machine fun _ _ => True := by
  refine (calm_load closed "[Ljava/lang/String;").bind ?_
  intro id loaded calm known
  have fills : Moves Calm (do
      let array ← Guest.newZeroArray id texts.length
      storeStrings array 0 texts
      pure array) loaded fun _ _ => True := by
    refine (Guest.calm_newZeroArray calm.closed known texts.length).bind ?_
    intro array made allocated _
    refine (calm_storeStrings allocated.closed array 0 texts).bind ?_
    exact fun _ _ stored _ => Moves.pure stored.closed.calm_refl trivial
  exact moves_ofGuest fills

theorem calm_registerNative (className name descriptor : String) (native : Native) :
    Moves Calm (registerNative className name descriptor native) machine fun _ _ => True := by
  have inserts : ∀ {before : Machine}, before.Closed → before.Calm { before with
      natives := before.natives.insert className name descriptor native } :=
    fun closed =>
      ⟨⟨.refl _, ⟨closed.registry, closed.known, closed.heap⟩, .refl _, rfl, rfl, rfl⟩, .refl _⟩
  refine Moves.get_bind ?_
  dsimp only
  split
  · next id _ =>
    have bound := closed.calm_modifyMethod id
      (show ∀ method : Method, { method with native := some native }.bodiless = method.bodiless
        from fun _ => rfl)
    refine Moves.modify_bind bound (Moves.modify_bind (inserts bound.closed) ?_)
    exact Moves.pure (inserts bound.closed).closed.calm_refl trivial
  · exact Moves.modify_bind (inserts closed) (Moves.pure (inserts closed).closed.calm_refl trivial)

end Host

namespace Reentry

open Machine

/-- A thread whose method runs nothing at once is prepared alike. -/
theorem prepare_interpreting {machine : Machine} {id : MethodId} (defers : machine.Defers id)
    (reentry : Reentry) (arguments : List Value) :
    reentry.interpreting.prepare id arguments machine = reentry.prepare id arguments machine := by
  have plain : ¬(machine.spawn.exec.isIdle && (machine.method id).isNative &&
      !machine.lacksNative id) = true := by
    cases native : (machine.method id).isNative with
    | false => simp
    | true => simp [defers native]
  have same : reentry.interpreting.enter id arguments machine.spawn =
      reentry.enter id arguments machine.spawn := if_neg plain
  rw [prepare_eq, prepare_eq, same]

end Reentry

namespace Machine

namespace Sound

variable {plain : Prop} {bounds : Bounds} {before after : Machine} (sound : before.Sound)

include sound

/-! ## Steps of a run -/

theorem follows_step (ready : before.Ready) (discreet : plain → before.Discreet)
    (alike : Host.runStep bounds.reentry before = Host.runStep bounds.reentry.interpreting before)
    (leaves : Leaves (Host.runStep bounds.reentry) before after) : before.Follows plain after := by
  have stages := Reentry.stages_ofDepth bounds.slices bounds.nesting
  rw [Leaves, alike] at leaves
  have turns := Ready.turns_runStep sound.closed sound.bounded stages ready discreet
  exact sound.follows_of_turns (turns.leaves leaves)

theorem follows_enter {id : MethodId} {arguments : List Value} {complete : Host Value}
    (linked : before.registry.HasMethod id) (defers : before.Defers id)
    (calls : plain → before.exec.method = none →
      Host.accepts (before.method id) arguments = true →
      (before.method id).isInitializer = false)
    (leaves : Leaves (Host.enterMethod bounds.reentry complete id arguments) before after) :
    before.Follows plain after := by
  rcases Option.eq_none_or_eq_some before.exec.method with idle | ⟨current, busy⟩
  · have settles := Host.settles_enterMethod sound.closed linked defers bounds.reentry complete
      arguments fun ordinary => calls ordinary idle
    exact sound.follows_of_settles idle (settles.leaves leaves)
  · obtain ⟨error, refused⟩ := Host.enterMethod_of_busy busy bounds.reentry complete arguments
    have stays : Moves Calm (Host.enterMethod bounds.reentry complete id arguments) before
        fun _ _ => True := Moves.of_error refused sound.closed.calm_refl
    exact sound.follows_of_calm (stays.leaves leaves)

theorem follows_stageInitializers {id : ClassId} (known : before.registry.Has id)
    (idle : before.exec.method = none)
    (leaves : Leaves (do Host.settle (← Host.attempt (Guest.ensureInitialized id 0)))
      before after) :
    before.Follows plain after := by
  have initializes : Moves (Settles plain) (Guest.ensureInitialized id 0) before
      fun pushed after => pushed = false → before.Stays after :=
    (Guest.deepens_ensureInitialized sound.closed known 0).of_related fun _ deepens => deepens.settles
  have settles : Moves (Settles plain) (do Host.settle (← Host.attempt (Guest.ensureInitialized id 0)))
      before fun _ _ => True := by
    refine (Host.moves_attempt initializes).bind ?_
    exact fun ended _ settles _ => Host.settles_settle settles.closed ended
  exact sound.follows_of_settles idle (settles.leaves leaves)

theorem follows_prepare {id : MethodId} {arguments : List Value}
    (linked : before.registry.HasMethod id) (defers : before.Defers id)
    (calls : plain → Host.accepts (before.method id) arguments = true →
      (before.method id).isInitializer = false)
    (leaves : Leaves (bounds.reentry.prepare id arguments) before after) :
    before.Follows plain after := by
  have stages := Reentry.stages_ofDepth bounds.slices bounds.nesting
  rw [Leaves, ← Reentry.prepare_interpreting defers] at leaves
  have serves := Reentry.serves_prepare stages sound.closed sound.bounded linked arguments
    calls
  exact sound.follows_of_extends (serves.leaves leaves).extends

theorem follows_operands {change : Stack → Stack} (idle : before.exec.method = none)
    (limit : (change before.exec.stack).limit = before.exec.stack.limit) :
    before.Follows plain (before.modifyStack change) := by
  refine sound.follows_of_shrinks (shrinks_of_keeps sound.closed rfl rfl rfl limit ?_)
  intro id busy _
  cases idle.symm.trans busy

theorem follows_builtin {own : Builtin} {arguments : NativeArgs}
    (alike : own.run bounds.reentry arguments before =
      own.run bounds.reentry.interpreting arguments before)
    (leaves : Leaves (own.run bounds.reentry arguments) before after) :
    before.Follows plain after := by
  have stages := Reentry.stages_ofDepth bounds.slices bounds.nesting
  have serves : Moves (Serves plain) _ before fun _ _ => True :=
    own.serves_run stages sound.closed sound.bounded arguments
  rw [Leaves, alike] at leaves
  exact sound.follows_of_extends (serves.leaves leaves).extends

theorem follows_select {receiver : ClassId} {resolved : MethodId}
    (known : before.registry.Has receiver) (linked : before.registry.HasMethod resolved) :
    before.Follows plain
      { before with registry := (before.registry.resolveVirtual receiver resolved).2 } := by
  obtain ⟨same, closed, -⟩ := sound.closed.registry.resolveVirtual known linked
  refine sound.follows_of_calm (sound.closed.calm_registry closed ?_
    (Registry.rests_resolveVirtual sound.closed.registry known linked))
  rw [same]
  exact .refl _

/-- What happens to a sound machine leaves it sound, and initialization in order if no
class initializer is called. -/
theorem follows_of_evolves (evolves : Evolves bounds before after)
    (proceeds : plain → Proceeds bounds before after) : before.Follows plain after := by
  have closed := sound.closed
  cases evolves with
  | step ready alike leaves =>
      exact sound.follows_step ready (fun plainly => (proceeds plainly).instructions leaves) alike
        leaves
  | enter linked defers leaves =>
      exact sound.follows_enter linked defers
        (fun plainly idle accepted => (proceeds plainly).calls _ _ _ idle accepted leaves) leaves
  | stageInitializers known idle leaves => exact sound.follows_stageInitializers known idle leaves
  | prepare linked defers leaves =>
      exact sound.follows_prepare linked defers
        (fun plainly accepted => (proceeds plainly).threads _ _ accepted leaves) leaves
  | resume found => exact sound.follows_switchTo found
  | park id => exact sound.follows_park id
  | drop id => exact sound.follows_switchBack id
  | abandon => exact sound.follows_of_shrinks (shrinks_abandonExecution closed)
  | reset => exact sound.follows_of_shrinks (shrinks_reset closed)
  | unwind leaves =>
      exact sound.follows_of_shrinks ((Host.shrinks_unwind closed _).leaves leaves)
  | operands idle limit => exact sound.follows_operands idle limit
  | define leaves => exact sound.follows_of_calm ((Host.calm_defineClass closed _).leaves leaves)
  | load leaves => exact sound.follows_of_calm ((Host.calm_load closed _).leaves leaves)
  | newString leaves =>
      exact sound.follows_of_calm ((Host.calm_newString closed _).leaves leaves)
  | newIntArray leaves =>
      exact sound.follows_of_calm ((Host.calm_newIntArray closed _).leaves leaves)
  | newStringArray leaves =>
      exact sound.follows_of_calm ((Host.calm_newStringArray closed _).leaves leaves)
  | registerNative leaves =>
      exact sound.follows_of_calm ((Host.calm_registerNative closed _ _ _ _).leaves leaves)
  | bindNative leaves =>
      exact sound.follows_of_calm ((Guest.calm_bindNative closed _).leaves leaves)
  | builtin alike leaves => exact sound.follows_builtin alike leaves
  | select known linked => exact sound.follows_select known linked
  | collect => exact sound.follows_of_calm closed.calm_collectGarbage
  | adjust adjusts => exact sound.follows_of_calm (adjusts.calm closed)

/-- Whatever is called, a sound machine stays sound. -/
theorem follows (evolves : Evolves bounds before after) : before.Follows False after :=
  sound.follows_of_evolves evolves nofun

/-! ## Runs -/

theorem of_reaches (run : Reaches bounds before after) : after.Sound := by
  induction run with
  | refl => exact sound
  | tail _ evolves ih => exact (ih.follows evolves).sound

end Sound

end Machine

end Jvm
