import Jvm.Machine.Call
import Jvm.Proofs.Machine.Allocation

/-!
# Natives are calm

The natives of objects, classes, strings, streams and of the system see the slots
of their arguments and the heap, but no frame. What they do is built of
allocations and of changes to objects.
-/

namespace Jvm

open Machine

namespace Guest

variable {α β : Type} {machine : Machine}

/-- A step whose result is wrapped. -/
theorem calm_wrapped {step : Guest β} {returned : β → Machine → Prop} (wrap : β → α)
    (moves : Moves Calm step machine returned) :
    Moves Calm (step >>= fun value => pure (wrap value)) machine fun _ _ => True := by
  refine moves.bind ?_
  exact fun _ _ calm _ => Moves.pure calm.closed.calm_refl trivial

variable (closed : machine.Closed)

include closed

theorem calm_nonNull (ref : Option Ref) (what : String) :
    Moves Calm (nonNull ref what) machine fun _ _ => True := by
  cases ref with
  | none => exact calm_raiseNull closed _
  | some ref => exact Moves.pure closed.calm_refl trivial

theorem calm_unitsOf (ref : Option Ref) : Moves Calm (unitsOf ref) machine fun _ _ => True := by
  refine (calm_nonNull closed ref "string").bind ?_
  intro ref after calm _
  exact Moves.get_bind (calm_require calm.closed _ fun _ _ => trivial)

end Guest

section

open Guest

variable {machine : Machine} (closed : machine.Closed) (arguments : NativeArgs)

include closed

theorem ObjectNative.calm_run (native : ObjectNative) :
    Moves Calm (native.run arguments) machine fun _ _ => True := by
  refine (calm_nonNull closed arguments.receiver "this").bind ?_
  intro receiver after calm _
  cases native with
  | hashCode => exact Moves.get_bind (Moves.pure calm.closed.calm_refl trivial)
  | getClass =>
      refine (calm_classOf calm.closed receiver).bind ?_
      intro id last found _
      exact calm_wrapped ofRef (calm_mirror found.closed id)
  | clone => exact calm_wrapped ofRef (calm_cloneObject calm.closed receiver)
  | toText =>
      refine (calm_classOf calm.closed receiver).bind ?_
      intro id last found _
      exact Moves.get_bind (calm_wrapped ofRef (calm_newString found.closed _))
  | notify =>
      refine Moves.get_bind ?_
      dsimp only
      split
      · exact Moves.pure calm.closed.calm_refl trivial
      · exact calm_raise calm.closed _ _

theorem ClassNative.calm_thisClass :
    Moves Calm (thisClass arguments) machine fun _ _ => True := by
  refine (calm_nonNull closed arguments.receiver "this").bind ?_
  intro receiver after calm _
  exact Moves.get_bind (calm_require calm.closed _ fun _ _ => trivial)

theorem ClassNative.calm_byName : Moves Calm (byName arguments) machine fun _ _ => True := by
  refine (calm_nonNull closed (arguments.ref 0) "className").bind ?_
  intro ref first calm _
  refine Moves.get_bind ?_
  have names : Moves Calm (require (first.stringText? ref) (.notString ref)) first
      fun _ _ => True := calm_require calm.closed _ fun _ _ => trivial
  refine names.bind ?_
  intro name second named _
  dsimp only
  split
  · exact calm_raise named.closed _ _
  · refine (calm_loadRaw named.closed _).bind ?_
    intro loaded last loads _
    split
    · exact calm_wrapped ofRef (calm_mirror loads.closed _)
    · exact calm_raise loads.closed _ _
    · exact calm_fatal loads.closed _

theorem ClassNative.calm_superclassMirror (id : ClassId) :
    Moves Calm (superclassMirror id) machine fun _ _ => True := by
  refine Moves.get_bind ?_
  dsimp only
  split
  · exact calm_wrapped ofRef (calm_mirror closed _)
  · exact Moves.pure closed.calm_refl trivial

theorem ClassNative.calm_run (native : ClassNative) :
    Moves Calm (native.run arguments) machine fun _ _ => True := by
  cases native with
  | forName => exact calm_byName closed arguments
  | getName =>
      refine (calm_thisClass closed arguments).bind ?_
      intro id after calm _
      exact Moves.get_bind (calm_wrapped ofRef (calm_newString calm.closed _))
  | isInstance =>
      refine (calm_thisClass closed arguments).bind ?_
      intro id after calm _
      cases arguments.ref 1 with
      | none => exact Moves.pure calm.closed.calm_refl trivial
      | some ref =>
          refine (calm_classOf calm.closed ref).bind ?_
          intro held last found _
          exact Moves.get_bind (Moves.pure found.closed.calm_refl trivial)
  | isArray | isInterface =>
      refine (calm_thisClass closed arguments).bind ?_
      intro id after calm _
      exact Moves.get_bind (Moves.pure calm.closed.calm_refl trivial)
  | getSuperclass =>
      refine (calm_thisClass closed arguments).bind ?_
      intro id after calm _
      exact calm_superclassMirror calm.closed id

/-! ### Text -/

theorem Printed.calm_toObject (printed : Printed) (index : Nat) :
    Moves Calm (printed.toObject arguments index) machine fun _ _ => True := by
  cases printed with
  | char => exact calm_newStringOfUnits closed _
  | _ => exact Moves.get_bind (calm_newString closed _)

theorem StringNative.calm_unitAt (units : List UInt16) (index : Int32) :
    Moves Calm (unitAt units index) machine fun _ _ => True := by
  rw [unitAt]
  split
  · exact Moves.pure closed.calm_refl trivial
  · exact calm_raise closed _ _

theorem StringNative.calm_textHash (receiver : Ref) :
    Moves Calm (textHash receiver) machine fun _ _ => True := by
  refine Moves.get_bind (Moves.get_bind ?_)
  dsimp only
  split
  · exact Moves.pure closed.calm_refl trivial
  · refine (calm_unitsOf closed _).bind ?_
    intro units after calm _
    have cached : after.Calm (after.modifyHeap fun heap => heap.modifyFields receiver fun fields =>
        fields.setInt machine.known.stringHash (Text.hashUnits units)) :=
      calm.closed.calm_modifyHeap (calm.closed.heap.modifyFields _ _)
    exact Moves.modify_bind cached (Moves.pure cached.closed.calm_refl trivial)

theorem StringNative.calm_join (receiver other : Option Ref) :
    Moves Calm (join receiver other) machine fun _ _ => True := by
  refine (calm_unitsOf closed receiver).bind ?_
  intro units first calm _
  refine (calm_unitsOf calm.closed other).bind ?_
  intro tail last read _
  split
  · exact Moves.pure read.closed.calm_refl trivial
  · exact calm_wrapped ofRef (calm_newStringOfUnits read.closed _)

theorem StringNative.calm_run (native : StringNative) :
    Moves Calm (native.run arguments) machine fun _ _ => True := by
  cases native with
  | length => exact calm_wrapped _ (calm_unitsOf closed _)
  | isEmpty => exact calm_wrapped _ (calm_unitsOf closed _)
  | charAt =>
      refine (calm_unitsOf closed _).bind ?_
      intro units after calm _
      exact calm_unitAt calm.closed units _
  | equals =>
      refine (calm_nonNull closed _ "this").bind ?_
      intro receiver after calm _
      exact Moves.get_bind (Moves.pure calm.closed.calm_refl trivial)
  | hashCode =>
      refine (calm_nonNull closed _ "this").bind ?_
      intro receiver after calm _
      exact calm_textHash calm.closed receiver
  | intern =>
      refine (calm_nonNull closed _ "this").bind ?_
      intro receiver after calm _
      refine (calm_internObject? calm.closed receiver).bind ?_
      intro canonical last interned _
      have found : Moves Calm (require canonical (.notString receiver)) last fun _ _ => True :=
        calm_require interned.closed _ fun _ _ => trivial
      exact calm_wrapped ofRef found
  | concat => exact calm_join closed _ _
  | valueOf printed =>
      exact calm_wrapped ofRef (printed.calm_toObject closed arguments 0)

theorem PrintNative.calm_run (native : PrintNative) :
    Moves Calm (native.run arguments) machine fun _ _ => True := by
  refine (calm_nonNull closed _ "this").bind ?_
  intro stream after calm _
  have wrote := calm.closed.calm_write (descriptor after stream) (native.written after arguments)
  exact Moves.get_bind (Moves.modify_bind wrote (Moves.pure wrote.closed.calm_refl trivial))

/-! ### Copies -/

namespace SystemNative

theorem calm_refuse {α : Type} {returned : α → Machine → Prop} (message : String) :
    Moves Calm (refuse message : Guest α) machine returned :=
  calm_raise closed _ _

theorem calm_sizeOf (side : Side) : Moves Calm (sizeOf side) machine fun _ _ => True := by
  refine Moves.get_bind ?_
  split
  · exact Moves.pure closed.calm_refl trivial
  · refine Moves.get_bind ((calm_classOf closed side.array).bind ?_)
    exact fun _ _ calm _ => calm_refuse calm.closed _

theorem calm_checkRange (side : Side) (length : Int32) (size : Nat) :
    Moves Calm (checkRange side length size) machine fun _ _ => True := by
  rw [checkRange]
  split
  · exact calm_raise closed _ _
  · exact Moves.pure closed.calm_refl trivial

theorem calm_modifyArray (target : Ref) (change : ArrayData → ArrayData) :
    machine.Calm (machine.modifyHeap fun heap => heap.modifyArray target change) :=
  closed.calm_modifyHeap (closed.heap.modifyArray target change)

theorem calm_copyChecked (target : Ref) (component : ClassId) (index : Nat)
    (elements : List (Option Ref)) :
    Moves Calm (copyChecked target component index elements) machine fun _ _ => True := by
  induction elements generalizing machine index with
  | nil => exact Moves.pure closed.calm_refl trivial
  | cons element rest ih =>
      have stores : ∀ before : Machine, before.Closed → Moves Calm (do
          modify fun machine => machine.modifyHeap fun heap => heap.modifyArray target fun data =>
            data.set index (.ref element)
          copyChecked target component (index + 1) rest) before fun _ _ => True := by
        intro before closed
        have stored := calm_modifyArray closed target fun data => data.set index (.ref element)
        exact Moves.modify_bind stored (ih stored.closed _)
      cases element with
      | none => exact stores machine closed
      | some ref =>
          refine (calm_classOf closed ref).bind ?_
          intro cls after calm _
          refine Moves.get_bind ?_
          dsimp only
          split
          · exact Moves.never_bind (calm_refuse calm.closed _)
          · exact stores after calm.closed

theorem calm_copyElements (source target : Ref) (sourceClass targetClass : ClassId)
    (start place count : Nat) :
    Moves Calm (copyElements source target sourceClass targetClass start place count) machine
      fun _ _ => True := by
  rw [copyElements]
  split
  · exact Moves.modify (calm_modifyArray closed target _) trivial
  · refine Moves.get_bind ?_
    split
    · exact calm_copyChecked closed target _ place _
    · refine Moves.modify (closed.calm_modifyHeap ?_) trivial
      split
      · exact closed.heap
      · exact closed.heap.modifyArray target _

theorem calm_copyBetween (source target : Side) (length : Int32) (sourceSize targetSize : Nat)
    (sourceClass targetClass : ClassId) :
    Moves Calm (copyBetween source target length sourceSize targetSize sourceClass targetClass)
      machine fun _ _ => True := by
  refine (calm_checkRange closed _ _ _).bind ?_
  intro _ first calm _
  refine (calm_checkRange calm.closed _ _ _).bind ?_
  intro _ second calm _
  split
  · exact calm_copyElements calm.closed ..
  · exact Moves.pure calm.closed.calm_refl trivial

theorem calm_copy : Moves Calm (copy arguments) machine fun _ _ => True := by
  refine (calm_nonNull closed _ "src").bind ?_
  intro source first calm _
  refine (calm_nonNull calm.closed _ "dest").bind ?_
  intro target second calm _
  refine (calm_sizeOf calm.closed _).bind ?_
  intro sourceSize third calm _
  refine (calm_sizeOf calm.closed _).bind ?_
  intro targetSize fourth calm _
  refine (calm_classOf calm.closed source).bind ?_
  intro sourceClass fifth calm _
  refine (calm_classOf calm.closed target).bind ?_
  intro targetClass sixth calm _
  refine Moves.get_bind ?_
  dsimp only
  split
  · exact Moves.never_bind (calm_refuse calm.closed _)
  · exact calm_copyBetween calm.closed ..

theorem calm_run (native : SystemNative) :
    Moves Calm (native.run arguments) machine fun _ _ => True := by
  cases native with
  | arraycopy => exact calm_wrapped (fun _ => Value.void) (calm_copy closed arguments)
  | gc => exact calm_wrapped (fun _ => Value.void) (calm_collect closed)
  | _ => exact Moves.get_bind (Moves.pure closed.calm_refl trivial)

end SystemNative

end

end Jvm
