import Jvm.Proofs.Locking.Spawning
import Jvm.Proofs.Machine.Runs

/-!
# Instructions and locks

An instruction heeds locks: a call takes the lock of a class before its frame comes, a return
gives it up with the frame, and what enters or leaves the monitor of an object touches no
class lock at all.
-/

namespace Jvm

open Machine Guest

namespace Machine

variable {plain : Prop} {before after : Machine} (guarded : before.Guarded)

include guarded

/-- Frames that came and went have left the others, so a step that touches none of them, and
no lock, has kept them all. -/
theorem Guarded.minds_of_turns (changes : ChangesIn .quiet before after)
    (turns : before.Turns plain after) : before.Minds after := by
  have follows : before.Follows plain after := guarded.sound.follows_of_turns turns
  refine guarded.minds changes follows.grows follows.sound fun fit fit' => ?_
  obtain ⟨between, extended, shrinks⟩ := turns
  have fitBetween := fit_of_growsTo extended.closed shrinks.closed shrinks.grows fit'
  obtain ⟨deeper, stands, longer, -⟩ := extended.frames fitBetween _ (guarded.stands fit)
  obtain ⟨left, standsAfter, shorter, -⟩ := shrinks.frames fit' _ stands
  exact ⟨left, standsAfter, List.suffix_or_suffix_of_suffix longer shorter⟩

/-- Who takes or releases the monitor of an object has the class locks that it had. -/
theorem Guarded.heeds_of_monitors {scope : Scope} (changes : ChangesIn scope before after)
    (calm : before.Calm after) (exec : after.exec = before.exec)
    (monitors : ∀ id, (after.cls id).monitor = (before.cls id).monitor)
    (spares : ∀ exec, exec ≠ before.exec.id → before.Spares after exec) : before.Heeds after := by
  have follows : before.Follows False after := guarded.sound.follows_of_calm calm
  refine guarded.heeds changes calm.grows follows.sound calm.exec.id calm.parked spares
    fun fit unlocked id => ?_
  obtain ⟨fitBefore, unlockedBefore⟩ := guarded.fits follows.sound calm.grows fit unlocked
  rw [exec, ClassTable.countP_takesLock calm.grows (guarded.linked fitBefore (.head _)), monitors]
  exact guarded.covers fitBefore unlockedBefore id

theorem Guarded.heeds_enterLock (ref : Ref) :
    before.Heeds (before.enterLock (.object ref)).2 := by
  have acquires : before.Acquires (some (.object ref)) _ := acquires_enterLock trivial
  have changes : Shapes before (before.enterLock (.object ref)).2 := before.shapes_enterLock trivial
  refine guarded.heeds_of_monitors changes.changes (guarded.closed.calm_enterLock _)
    (before.exec_enterLock _) (fun id => ?_) fun _ differs => acquires.spares differs
  rw [acquires.monitor_cls, if_neg nofun]

theorem Guarded.heeds_exitLock (ref : Ref) : before.Heeds (before.exitLock (.object ref)).2 := by
  have releases : before.Releases (some (.object ref)) _ := releases_exitLock trivial
  have changes : Shapes before (before.exitLock (.object ref)).2 := before.shapes_exitLock trivial
  refine guarded.heeds_of_monitors changes.changes (guarded.closed.calm_exitLock _)
    (before.exec_exitLock _) (fun id => ?_) fun _ differs => releases.spares differs
  rw [releases.monitor_cls, if_neg nofun]

end Machine

namespace Moves

variable {plain : Prop} {machine : Machine} {α : Type}

theorem heeds_of_turning {step : Guest α} (guarded : machine.Guarded) (walks : WalksIn .quiet step)
    (turning : Turning plain step machine) : Moves Heeds step machine fun _ _ => True :=
  Ends.mono (Ends.and turning (walks machine))
    (fun _ _ ended => ⟨(guarded.minds_of_turns ended.2.1 ended.1).toHeeds, trivial⟩)
    fun _ _ ended => (guarded.minds_of_extends ended.2 ended.1).toHeeds

theorem heeds_of_deepens {returned : α → Machine → Prop} {step : Guest α}
    (guarded : machine.Guarded) (walks : WalksIn .quiet step)
    (moves : Moves (Deepens False) step machine returned) : Moves Heeds step machine returned :=
  (idles_of_deepens guarded walks moves).idles_heeds

end Moves

namespace Guest

variable {machine : Machine} (guarded : machine.Guarded) {current : MethodId}

include guarded

/-! ## Static fields and new objects -/

/-- The static field that is found, if its class needs no initialization first. -/
theorem heeds_staticField? {owner : ClassId} {index : UInt16} {named : ResolvedField → Prop}
    (resolves : Moves Calm (resolveField owner index) machine
      fun field after => after.registry.Has field.owner ∧ named field) (pc : UInt32) :
    Moves Heeds (staticField? owner index pc) machine
      fun found after => ∀ field, found = some field → machine.Stays after ∧ named field := by
  refine Moves.idles_bind (Moves.idles_calm guarded (paces_resolveField _ _).walks resolves) ?_
  rintro field first idles ⟨⟨known, name⟩, calm⟩
  have later := idles.guarded
  split
  · exact Moves.get_bind (Moves.idles_of_calm later (paces_mismatch _).walks
      (calm_mismatch later.closed _)).idles_heeds
  · refine (heeds_ensureInitialized later known pc).bind ?_
    rintro pushed last heeds ⟨-, quiet⟩
    cases pushed with
    | true =>
        refine Moves.pure heeds.guarded.heeds_refl ?_
        rintro field ⟨⟩
    | false =>
        refine Moves.pure heeds.guarded.heeds_refl ?_
        rintro field ⟨⟩
        exact ⟨calm.toStays.trans (quiet rfl), name⟩

theorem heeds_getStatic (holds : machine.exec.Holds current 0) (owner : ClassId) (index : UInt16)
    (pc next : UInt32) : Moves Heeds (getStatic owner index pc next) machine fun _ _ => True := by
  have resolves : Moves Calm (resolveField owner index) machine
      fun field after => after.registry.Has field.owner ∧ True :=
    (calm_resolveField guarded.closed owner index).mono fun _ _ _ known => ⟨known, trivial⟩
  refine (heeds_staticField? guarded resolves pc).bind ?_
  intro found first heeds quiet
  have later := heeds.guarded
  cases found with
  | none => exact Moves.pure later.heeds_refl trivial
  | some field =>
      obtain ⟨stays, -⟩ := quiet field rfl
      have reads : Moves Calm (require (first.cls field.owner).statics .classHasNoStatics) first
          fun _ _ => True := calm_require later.closed _ fun _ _ => trivial
      refine Moves.get_bind (Moves.idles_bind
        (Moves.idles_calm later (paces_require _ _).walks reads) ?_)
      rintro statics last idles ⟨-, read⟩
      exact Moves.heeds_of_deepens idles.guarded
        ((paces_onStack _).bind fun _ => paces_proceed _).walks
        (deepens_pushResult idles.guarded.closed (read.holds (stays.holds holds)) _ next)

theorem heeds_setStatic {owner : ClassId} {index : UInt16}
    (resolves : Moves Calm (resolveField owner index) machine
      fun field after => after.registry.Has field.owner ∧ machine.exec.Holds current field.kind.slots)
    (pc next : UInt32) :
    Moves Heeds (setStatic owner index pc next) machine fun _ _ => True := by
  refine (heeds_staticField? guarded resolves pc).bind ?_
  intro found first heeds quiet
  have later := heeds.guarded
  cases found with
  | none => exact Moves.pure later.heeds_refl trivial
  | some field =>
      obtain ⟨stays, holds⟩ := quiet field rfl
      have operands : first.exec.Holds current (0 + field.kind.slots) := by
        rw [Nat.zero_add]
        exact stays.holds holds
      refine (Moves.heeds_of_deepens later (paces_fromStack _).walks
        (deepens_popValue later.closed operands)).bind ?_
      intro value second popped _
      have after := popped.guarded
      have puts : Moves Calm (do
          putStatic field.owner field.slot.toNat value
          proceed next) second fun _ _ => True :=
        (calm_putStatic after.closed _ _ _).bind fun _ _ put _ => calm_proceed put.closed next
      refine Moves.get_bind ?_
      split
      · exact Moves.never_bind (Moves.idles_of_calm after (paces_fault _).walks
          (calm_fault after.closed _)).idles_heeds
      · exact (Moves.idles_of_calm after
          ((paces_putStatic _ _ _).bind fun _ => paces_proceed _).walks puts).idles_heeds

theorem heeds_pushInstance (holds : machine.exec.Holds current 0) (owner : ClassId)
    (index : UInt16) (pc next : UInt32) :
    Moves Heeds (pushInstance owner index pc next) machine fun _ _ => True := by
  refine Moves.idles_bind (Moves.idles_calm guarded (paces_resolveClass _ _).walks
    (calm_resolveClass guarded.closed owner index)) ?_
  rintro target first idles ⟨known, calm⟩
  have later := idles.guarded
  refine Moves.get_bind ?_
  dsimp only
  split
  · exact (Moves.idles_of_calm later (paces_raise _ _).walks (calm_raise later.closed _ _)).idles_heeds
  · refine (heeds_ensureInitialized later known pc).bind ?_
    rintro pushed second heeds ⟨-, quiet⟩
    have after := heeds.guarded
    cases pushed with
    | true => exact Moves.pure after.heeds_refl trivial
    | false =>
        have stays := calm.toStays.trans (quiet rfl)
        have makes : Moves (Deepens False) (do
            let ref ← newInstance target
            onStack fun stack => stack.pushRef (some ref)
            proceed next) second fun _ _ => True := by
          refine (calm_newInstance after.closed ((quiet rfl).grows.has known)).calm_bind ?_
          intro ref third made _
          refine (deepens_pushRef made.closed (made.holds (stays.holds holds)) ref).bind ?_
          exact fun _ _ pushed _ => (calm_proceed pushed.closed next).calm_deepens
        have walks : WalksIn .quiet (do
            let ref ← newInstance target
            onStack fun stack => stack.pushRef (some ref)
            proceed next) :=
          (allots_newInstance _).paces.walks.bind fun _ => (paces_onStack _).walks.bind
            fun _ => (paces_proceed _).walks
        exact Moves.heeds_of_deepens after walks makes

/-! ## Monitors of objects -/

theorem heeds_enterMonitor (holds : machine.exec.Holds current 1) (next : UInt32) :
    Moves Heeds (enterMonitor next) machine fun _ _ => True := by
  refine Moves.get_bind ?_
  split
  · have refuses : Moves (Deepens False) (do
        onStack fun stack => stack.discard 1
        raiseNull "Cannot enter synchronized block because value is null" : Guest Step) machine
        fun _ _ => True :=
      (deepens_discard guarded.closed holds).bind
        fun _ _ popped _ => (calm_raiseNull popped.closed _).calm_deepens
    exact Moves.heeds_of_deepens guarded
      ((paces_onStack _).bind fun _ => paces_raiseNull _).walks refuses
  · next ref _ =>
      have takes : Moves Heeds (enterLock (.object ref)) machine fun _ after => machine.Calm after :=
        Moves.modifyGet (guarded.heeds_enterLock ref) (guarded.closed.calm_enterLock _)
      refine takes.bind ?_
      intro taken first heeds calm
      have later := heeds.guarded
      split
      · have goes : Moves (Deepens False) (do
            onStack fun stack => stack.discard 1
            proceed next) first fun _ _ => True :=
          (deepens_discard later.closed (calm.holds holds)).bind
            fun _ _ popped _ => (calm_proceed popped.closed next).calm_deepens
        exact Moves.heeds_of_deepens later ((paces_onStack _).bind fun _ => paces_proceed _).walks goes
      · exact Moves.pure later.heeds_refl trivial

theorem heeds_exitMonitor (holds : machine.exec.Holds current 1) (next : UInt32) :
    Moves Heeds (exitMonitor next) machine fun _ _ => True := by
  refine (Moves.heeds_of_deepens guarded (paces_fromStack _).walks
    (deepens_popRef guarded.closed (Nat.zero_add 1 ▸ holds))).bind ?_
  intro ref first popped _
  have later := popped.guarded
  cases ref with
  | none =>
      exact (Moves.idles_of_calm later (paces_raiseNull _).walks
        (calm_raiseNull later.closed _)).idles_heeds
  | some ref =>
      have exits : Moves Heeds (exitLock (.object ref)) first fun _ _ => True :=
        Moves.modifyGet (later.heeds_exitLock ref) trivial
      refine exits.bind ?_
      intro released last heeds _
      have after := heeds.guarded
      split
      · exact (Moves.idles_of_calm after (paces_proceed _).walks
          (calm_proceed after.closed next)).idles_heeds
      · exact (Moves.idles_of_calm after (paces_raise _ _).walks
          (calm_raise after.closed _ _)).idles_heeds

/-! ## Calls -/

section

variable {reentry : Reentry} (stages : reentry.Stages) (heeds : reentry.Heeds)
  (roomy : machine.Roomy machine.exec.id) (welcomes : machine.Welcomes)
  (busy : machine.exec.method = some current)

include stages heeds roomy welcomes busy

theorem heeds_invokeInstance {mode : CallMode} {index : UInt16}
    (demands : Ends (operands current (.invoke mode index)) machine
      (fun count _ => machine.exec.Offers count) fun _ _ => True) (pc next : UInt32) :
    Moves Heeds (invokeInstance reentry mode current.owner index pc next) machine
      fun _ _ => True := by
  simp only [operands, ends_bind, ends_get] at demands
  refine Moves.idles_bind (Moves.idles_calm guarded (paces_resolveMethod _ _).walks
    ((calm_resolveMethod guarded.closed current.owner index).and_ends demands)) ?_
  rintro resolved first idles ⟨⟨linked, demands⟩, calm⟩
  have later := idles.guarded
  refine Moves.get_bind ?_
  dsimp only
  split
  · exact (Moves.idles_of_calm later (paces_mismatch _).walks
      (calm_mismatch later.closed _)).idles_heeds
  · split
    next =>
        exact (Moves.idles_of_calm later (paces_raiseNull _).walks
          (calm_raiseNull later.closed _)).idles_heeds
    next receiver found =>
        simp only [found, ends_bind, ends_get, ends_pure] at demands
        refine Moves.idles_bind (Moves.idles_calm later (paces_selectTarget mode _ _).walks
          ((calm_selectTarget later.closed mode receiver linked).and_ends demands)) ?_
        rintro target last selects ⟨⟨⟨chosen, -⟩, offers⟩, selected⟩
        have idled := idles.trans selects
        have moved := calm.trans selected
        refine heeds_invoke stages heeds idled.guarded (moved.exec.method.trans busy) chosen
          (moved.offers offers) ?_ (welcomes.of_idles idled) pc next
        rw [idled.id]
        exact roomy.of_idles idled

theorem heeds_invokeStatic {index : UInt16}
    (demands : Ends (operands current (.invokeStatic index)) machine
      (fun count _ => machine.exec.Offers count) fun _ _ => True) (pc next : UInt32) :
    Moves Heeds (invokeStatic reentry current.owner index pc next) machine fun _ _ => True := by
  simp only [operands, ends_bind, ends_get, ends_pure] at demands
  refine Moves.idles_bind (Moves.idles_calm guarded (paces_resolveMethod _ _).walks
    ((calm_resolveMethod guarded.closed current.owner index).and_ends demands)) ?_
  rintro resolved first idles ⟨⟨linked, offers⟩, calm⟩
  have later := idles.guarded
  split
  · exact Moves.get_bind (Moves.idles_of_calm later (paces_mismatch _).walks
      (calm_mismatch later.closed _)).idles_heeds
  · refine (heeds_ensureInitialized later linked.1 pc).bind ?_
    rintro pushed last initialized ⟨monitors, quiet⟩
    cases pushed with
    | true => exact Moves.pure initialized.guarded.heeds_refl trivial
    | false =>
        have stays := quiet rfl
        have moved := calm.toStays.trans stays
        refine heeds_invoke stages heeds initialized.guarded (moved.exec.method.trans busy)
          (stays.grows.hasMethod linked) ?_ ?_ ?_ pc next
        · rw [stays.frameArgSlots linked]
          exact moved.offers offers
        · rw [initialized.id, idles.id]
          exact (roomy.of_idles idles).of_monitors monitors
        · exact (welcomes.of_idles idles).of_stays stays monitors

/-! ## Steps -/

theorem heeds_execute {instr : Instr}
    (demands : Ends (operands current instr) machine
      (fun count _ => machine.exec.Offers count) fun _ _ => True)
    (code : Array UInt8) (pc next : UInt32) :
    Moves Heeds (execute reentry current code pc next instr) machine fun _ _ => True := by
  cases plain : instr.isPlain with
  | true =>
      have turning : Turning False (execute reentry current code pc next instr) machine :=
        turning_execute guarded.closed stages guarded.sound.bounded busy demands nofun code pc next
      exact Moves.heeds_of_turning guarded (paces_execute_of_plain plain _ _ _ _ _).walks turning
  | false =>
      have simple : ∀ {count : Nat}, operands current instr = pure count →
          machine.exec.Holds current count := by
        intro count same
        rw [same, ends_pure] at demands
        exact demands.holds busy
      cases instr with
      | leave kind =>
          cases kind with
          | none => exact heeds_returnFromFrame guarded .void
          | some kind =>
              have holds : machine.exec.Holds current (0 + kind.slots) := by
                rw [Nat.zero_add]
                exact simple rfl
              refine (Moves.heeds_of_deepens guarded (paces_fromStack _).walks
                (deepens_popValue guarded.closed holds)).bind ?_
              exact fun value after popped _ => heeds_returnFromFrame popped.guarded value
      | getStatic index =>
          exact heeds_getStatic guarded (simple rfl) current.owner index pc next
      | putStatic index =>
          simp only [operands, ends_bind, ends_pure] at demands
          have resolves : Moves Calm (resolveField current.owner index) machine fun field after =>
              after.registry.Has field.owner ∧ machine.exec.Holds current field.kind.slots :=
            ((calm_resolveField guarded.closed current.owner index).and_ends demands).mono
              fun _ _ _ named => ⟨named.1, named.2.holds busy⟩
          exact heeds_setStatic guarded resolves pc next
      | invoke mode index =>
          exact heeds_invokeInstance guarded stages heeds roomy welcomes busy demands pc next
      | invokeStatic index =>
          exact heeds_invokeStatic guarded stages heeds roomy welcomes busy demands pc next
      | newObject index =>
          exact heeds_pushInstance guarded (simple rfl) current.owner index pc next
      | enterMonitor => exact heeds_enterMonitor guarded (simple rfl) next
      | exitMonitor => exact heeds_exitMonitor guarded (simple rfl) next
      | _ => cases plain

theorem heeds_executeByte {byte : UInt8} {code : Array UInt8} {pc : UInt32}
    (demands : Ends (askedAt 0 (fun id _ instr => operands id instr) current code pc byte) machine
      (fun count _ => machine.exec.Offers count) fun _ _ => True) :
    Moves Heeds (executeByte reentry current code pc byte) machine fun _ _ => True := by
  rw [executeByte]
  split
  · exact (Moves.idles_of_calm guarded (paces_ofDecodeFault _ _).walks
      (calm_ofDecodeFault guarded.closed _ _)).idles_heeds
  · next opcode found =>
      simp only [askedAt, found, ends_bind] at demands
      refine Moves.idles_bind (Moves.idles_calm guarded (paces_ofDecode _ _).walks
        ((calm_ofDecode guarded.closed current (Instr.decode code pc opcode)).and_ends demands)) ?_
      rintro ⟨instr, next⟩ after idles ⟨⟨-, demands⟩, calm⟩
      refine heeds_execute idles.guarded stages heeds ?_ (welcomes.of_idles idles)
        (calm.exec.method.trans busy) (Ends.mono demands ?_ ?_) code pc next
      · rw [idles.id]
        exact roomy.of_idles idles
      · exact fun _ _ offers => calm.offers offers
      · exact fun _ _ _ => trivial

omit busy in
/-- An instruction that finds its operands heeds locks. -/
theorem heeds_step
    (demands : Ends demand machine (fun count _ => machine.exec.Offers count) fun _ _ => True) :
    Moves Heeds (step reentry) machine fun _ _ => True := by
  simp only [demand, askedNext, ends_bind, ends_get] at demands
  refine Moves.get_bind ?_
  cases current : machine.exec.method with
  | none =>
      exact (Moves.idles_of_calm guarded (paces_fault _).walks
        (calm_fault guarded.closed _)).idles_heeds
  | some id =>
      simp only [current, ends_bind] at demands ⊢
      refine Moves.idles_bind (Moves.idles_calm guarded (paces_ofDecode _ _).walks
        ((calm_ofDecode guarded.closed id _).and_ends demands)) ?_
      rintro byte first idles ⟨⟨-, demands⟩, read⟩
      refine Moves.idles_bind (Moves.idles_calm idles.guarded (paces_fetch _ _ _).walks
        ((calm_fetch read.closed id machine.exec.pc byte).and_ends demands)) ?_
      rintro fetched last fetches ⟨⟨-, demands⟩, later⟩
      have idled := idles.trans fetches
      have calm := read.trans later
      cases fetched with
      | none => exact Moves.pure idled.guarded.heeds_refl trivial
      | some byte =>
          refine heeds_executeByte idled.guarded stages heeds ?_ (welcomes.of_idles idled)
            (calm.exec.method.trans current) (Ends.mono demands ?_ ?_)
          · rw [idled.id]
            exact roomy.of_idles idled
          · exact fun _ _ offers => calm.offers offers
          · exact fun _ _ _ => trivial

end

end Guest

end Jvm
