import Jvm.Machine.Arrays
import Jvm.Proofs.Machine.Shaping
import Jvm.Proofs.Machine.Allocation

/-!
# Allocation and arrays keep objects in shape

Objects are allocated, strings and exceptions are built of them, and elements of arrays
are read and written. Whatever is collected, loaded or thrown on the way, all of it is put
together from changes that keep objects in shape; and an object that is made of a class for
instances, or as an array of an array class, is in shape itself.
-/

namespace Jvm

/-- An exception is thrown of a class that is no array class. -/
theorem ExceptionKind.isArrayName_className (kind : ExceptionKind) :
    ArrayName.isArrayName kind.className = false := by
  cases kind <;> rfl

/-! ## Linking -/

namespace Registry

variable {registry : Registry}

theorem closed_link {α : Type} {returned : α → ClassTable → Prop} {steps : ClassPath → Linking α}
    (moves : Moves ClassTable.LinksTo (steps registry.path) registry.toClassTable returned) :
    (registry.link steps).2.toClassTable.Closed := by
  simp only [Moves, Ends] at moves
  rw [link, EStateM.run]
  split
  next value table ran =>
      rw [ran] at moves
      exact moves.1.closed
  next error table ran =>
      rw [ran] at moves
      exact moves.closed

variable (closed : registry.toClassTable.Closed)

include closed

theorem closed_load (name : String) : (registry.load name).2.toClassTable.Closed :=
  closed_link (Linking.moves_load registry.path [] name _ closed)

theorem closed_arrayOf (component : ClassId) :
    (registry.arrayOf component).2.toClassTable.Closed :=
  closed_link (Linking.moves_arrayOf registry.path component closed)

theorem closed_defineClass (bytes : Array UInt8) :
    (registry.defineClass bytes).2.toClassTable.Closed :=
  closed_link (Linking.moves_defineClass registry.path bytes closed)

end Registry

namespace Machine

variable {scope : Scope} {machine : Machine}

theorem shapes_load (name : String) :
    ShapedIn scope machine { machine with registry := (machine.registry.load name).2 } :=
  .single (.link (machine.registry.prefixes_load name).1
    (fun closed => Registry.closed_load closed name) fun laid => Registry.laid_load laid name)

theorem shapes_arrayOf (component : ClassId) :
    ShapedIn scope machine { machine with registry := (machine.registry.arrayOf component).2 } :=
  .single (.link (machine.registry.prefixes_arrayOf component)
    (fun closed => Registry.closed_arrayOf closed component)
    fun laid => Registry.laid_arrayOf laid component)

theorem shapes_defineClass (bytes : Array UInt8) :
    ShapedIn scope machine { machine with registry := (machine.registry.defineClass bytes).2 } :=
  .single (.link (machine.registry.prefixes_defineClass bytes)
    (fun closed => Registry.closed_defineClass closed bytes)
    fun laid => Registry.laid_defineClass laid bytes)

/-- The selection of a call's target touches no class. -/
theorem shapes_resolveVirtual (receiver : ClassId) (resolved : MethodId) :
    ShapedIn scope machine
      { machine with registry := (machine.registry.resolveVirtual receiver resolved).2 } := by
  have same := machine.registry.toClassTable_resolveVirtual receiver resolved
  refine .single (.classes ?_ (fun id => ?_) fun id => ?_) <;> rw [same]
  · exact .refl _
  · rfl
  · rfl

/-- A class goes on in what programs change. -/
theorem shapes_modifyClass (id : ClassId) {change : Class → Class}
    (same : (machine.cls id).Resembles (change (machine.cls id)))
    (pools : ∀ cls : Class, (change cls).pool = cls.pool)
    (monitors : ∀ cls : Class, (change cls).monitor = cls.monitor)
    (fixed : ∀ cls : Class, (change cls).fixed = cls.fixed) :
    ShapedIn scope machine (machine.modifyClass id change) :=
  .single (.classes (.modify machine.registry.toClassTable id same pools)
    (fun other => machine.registry.view_modify id other change Class.monitor monitors)
    fun other => machine.registry.view_modify id other change Class.fixed fixed)

theorem shapes_modifyHeap {change : Heap → Heap}
    (writes : machine.heap.Rewrites (change machine.heap)) :
    ShapedIn scope machine (machine.modifyHeap change) :=
  .single (.write writes)

/-- Whatever changes of the running execution, it stays in its frame. -/
theorem shapes_modifyExec {change : Execution → Execution}
    (remains : ∀ exec : Execution, exec.Remains (change exec)) :
    ShapedIn scope machine (machine.modifyExec change) :=
  .single (.aside ⟨remains _, rfl⟩ rfl rfl rfl rfl)

theorem shapes_modifyStack (change : Stack → Stack) :
    ShapedIn scope machine (machine.modifyStack change) :=
  .single (.aside ⟨⟨rfl, rfl, rfl⟩, rfl⟩ rfl rfl rfl rfl)

namespace PacesIn

variable {scope : Scope} {ε α : Type}

theorem forM {items : List α} {step : α → EStateM ε Machine PUnit}
    (paces : ∀ item, PacesIn scope (step item)) : PacesIn scope (items.forM step) := by
  induction items with
  | nil => exact .pure _
  | cons item rest ih => exact (paces item).bind fun _ => ih

theorem foldlM {items : List α} {β : Type} {step : β → α → EStateM ε Machine β}
    (paces : ∀ value item, PacesIn scope (step value item)) (start : β) :
    PacesIn scope (items.foldlM step start) := by
  induction items generalizing start with
  | nil => exact .pure _
  | cons item rest ih => exact (paces start item).bind ih

end PacesIn

end Machine

open Machine

namespace Guest

variable {scope : Scope} {α : Type}

theorem paces_fatal (error : Error) : PacesIn scope (fatal error : Guest α) := .throw _

theorem paces_fault (fault : StateFault) : PacesIn scope (Guest.fault fault : Guest α) := .throw _

theorem paces_ofLoad (loaded : Except LoadError α) : PacesIn scope (ofLoad loaded) := by
  cases loaded with
  | ok value => exact .pure value
  | error error => exact paces_fatal _

theorem paces_require (value : Option α) (missing : StateFault) :
    PacesIn scope (require value missing) := by
  cases value with
  | some value => exact .pure value
  | none => exact paces_fault missing

theorem paces_onStack (change : Stack → Stack) : PacesIn scope (onStack change) :=
  .modify fun _ => shapes_modifyStack change

theorem paces_fromStack (take : Stack → α × Stack) : PacesIn scope (fromStack take) :=
  fun _ => Moves.of_ok rfl (.single (.aside ⟨⟨rfl, rfl, rfl⟩, rfl⟩ rfl rfl rfl rfl)) trivial

/-! ## Allocation -/

theorem paces_collect : PacesIn scope collect := .modifyGet fun _ => .single .collect

/-- A full heap throws, and nothing is done. -/
theorem ends_throwOutOfMemory {machine : Machine} {returned : α → Machine → Prop}
    {reached : Machine → Prop} (here : reached machine) :
    Ends (throwOutOfMemory : Guest α) machine returned fun _ after => reached after := by
  rw [throwOutOfMemory, ends_bind, ends_get]
  split
  · exact ends_throw.mpr here
  · exact ends_throw.mpr here

section

variable {payload : Nat} {make : Int32 → Object} (sized : ∀ hash, (make hash).payload = payload)

include sized

/-- Room is made for the bytes that an object takes, and then it is put into the arena if it
fits. -/
theorem ends_alloc {machine : Machine} {returned : Ref → Machine → Prop}
    {reached : Machine → Prop} (here : reached machine)
    (collects : ∀ {between}, reached between → reached between.collectGarbage.2)
    (puts : ∀ (between : Machine) (hash : Int32) (drawn : Nat), reached between →
      between.heap.fits (make hash).size = true →
      returned (Heap.insert { between.heap with drawn } (make hash)).1
        { between with heap := (Heap.insert { between.heap with drawn } (make hash)).2 }) :
    Ends (alloc payload make) machine returned fun _ after => reached after := by
  rw [alloc]
  cases charged : Heap.objectSize? payload with
  | none => exact ends_throwOutOfMemory here
  | some size =>
      have same : ∀ hash, (make hash).size = size := fun hash => by
        rw [← Heap.eq_of_objectSize? charged, Object.size, sized, Nat.add_comm]
      have inserts : ∀ between, reached between → between.heap.fits size = true →
          Ends (modifyGet fun machine =>
            let made := machine.heap.nextHash.2.insert (make machine.heap.nextHash.1)
            (made.1, { machine with heap := made.2 }) : Guest Ref) between returned
            fun _ after => reached after := by
        intro between here room
        obtain ⟨hash, drawn, next⟩ := between.heap.nextHash_eq
        rw [ends_modifyGet, next]
        exact puts between hash drawn here (same hash ▸ room)
      have due : Ends (collectIfDue size) machine (fun _ after => reached after)
          fun _ after => reached after := by
        rw [collectIfDue, ends_bind, ends_get]
        split
        · exact ends_bind.mpr (ends_modifyGet.mpr (ends_pure.mpr (collects here)))
        · exact ends_pure.mpr here
      rw [ends_bind]
      refine due.mono (fun _ between here => ?_) fun _ _ here => here
      rw [ends_bind, ends_get]
      split
      · have swept := collects here
        refine ends_bind.mpr (ends_modifyGet.mpr (ends_bind.mpr (ends_get.mpr ?_)))
        split
        · exact ends_bind.mpr (ends_throwOutOfMemory swept)
        next room => exact inserts _ swept (by simpa using room)
      next room => exact inserts _ here (by simpa using room)

variable (new : ∀ hash, (make hash).IsNew)

include new

/-- The handle that is returned is given out. -/
theorem allots_alloc : AllotsIn scope (alloc payload make) := by
  intro machine
  have begun : CountedIn scope machine machine := .refl
  refine ends_alloc sized begun (fun reached => reached.tail .collect) ?_
  intro between hash drawn reached fits
  have seeded : Counted scope between { between with heap := { between.heap with drawn } } :=
    .write (.of_objects rfl rfl rfl ⟨rfl, rfl, rfl⟩)
  have issues : machine.Issues scope (Heap.insert { between.heap with drawn } (make hash)).1
      { between with heap := (Heap.insert { between.heap with drawn } (make hash)).2 } :=
    ⟨_, make hash, reached.tail seeded, ⟨fits, new hash⟩, rfl, .refl⟩
  exact ⟨issues.counted, issues⟩

/-- An object that is made in shape is there in shape. -/
theorem moves_alloc {origin machine : Machine} (begun : ShapedIn scope origin machine)
    (forms : origin.Shapely → ∀ hash, machine.registry.Forms (make hash)) :
    Moves (fun _ => ShapedIn scope origin) (alloc payload make) machine fun _ _ => True := by
  have ends : Ends (alloc payload make) machine (fun _ after => ShapedIn scope origin after ∧ True)
      fun _ between => ShapedIn scope origin between ∧ between.registry = machine.registry := by
    refine ends_alloc sized ⟨begun, rfl⟩ (fun here => ⟨here.1.tail .collect, here.2⟩) ?_
    rintro between hash drawn ⟨reached, same⟩ fits
    have seeded : Shaped scope between { between with heap := { between.heap with drawn } } :=
      .write (.of_objects rfl rfl rfl ⟨rfl, rfl, rfl⟩)
    have early := reached.tail seeded
    have counted := early.counted.tail (.insert fits (new hash))
    refine ⟨⟨counted, early.known, fun shapely => ?_⟩, trivial⟩
    have made : between.registry.Forms (make hash) := same ▸ forms shapely hash
    have now := early.shapely shapely
    exact now.of_heap (now.accounted.insert (new hash).unmarked) (now.objects.insert made)
  exact ends.mono (fun _ _ made => made) fun _ _ here => here.1

end

theorem allots_newInstance (id : ClassId) : AllotsIn scope (newInstance id) :=
  .get_bind fun machine => allots_alloc
    (fun _ => congrArg (· * 4) (Fields.size_ofSize (machine.cls id).instanceSlots.toNat))
    fun _ => ⟨rfl, rfl⟩

/-- An instance that is made on the way, of a class that makes instances there. -/
theorem moves_newInstance_from {id : ClassId} {origin machine : Machine}
    (begun : ShapedIn scope origin machine)
    (makes : origin.Shapely → machine.registry.Makes id) :
    Moves (fun _ => ShapedIn scope origin) (newInstance id) machine fun _ _ => True :=
  Moves.get_bind (moves_alloc
    (fun _ => congrArg (· * 4) (Fields.size_ofSize (machine.cls id).instanceSlots.toNat))
    (fun _ => ⟨rfl, rfl⟩) begun fun shapely => (makes shapely).forms)

theorem moves_newInstance {id : ClassId} {machine : Machine}
    (makes : machine.Shapely → machine.registry.Makes id) :
    Moves (ShapedIn scope) (newInstance id) machine fun _ _ => True :=
  moves_newInstance_from .refl makes

theorem allots_newArrayOf (id : ClassId) (data : ArrayData) :
    AllotsIn scope (newArrayOf id data) :=
  allots_alloc (fun _ => rfl) fun _ => ⟨rfl, rfl⟩

theorem moves_newBytes {data : ArrayData} (bytes : data.kind = .byte) (machine : Machine) :
    Moves (ShapedIn scope) (newArrayOf machine.known.byteArray data) machine fun _ _ => True := by
  refine moves_alloc (fun _ => ?_) (fun _ => ⟨rfl, rfl⟩) .refl fun shapely _ => ⟨?_, ?_⟩
  · rfl
  · exact shapely.known.byteArray.1
  · exact (congrArg Form.elements bytes).trans shapely.known.byteArray.2.symm

theorem allots_newZeroArray (id : ClassId) (size : Nat) :
    AllotsIn scope (newZeroArray id size) := by
  refine .get_bind fun machine => ?_
  dsimp only
  split
  · exact fun _ => Moves.throw .refl
  · exact allots_alloc (fun _ => ArrayData.byteSize_ofSize _ _) fun _ => ⟨rfl, rfl⟩

/-- Zeros are stored as elements of the array class are. -/
theorem paces_newZeroArray (id : ClassId) (size : Nat) : PacesIn scope (newZeroArray id size) := by
  refine PacesIn.get_bind fun machine => ?_
  dsimp only
  split
  · exact Moves.throw .refl
  next info array =>
      refine moves_alloc (fun _ => ?_) (fun _ => ⟨rfl, rfl⟩) .refl fun _ _ => ⟨?_, ?_⟩
      · exact ArrayData.byteSize_ofSize _ _
      · exact ClassTable.has_of_array array
      · have form : (machine.cls id).form = .elements info.element.storage := by
          rw [Class.form, array]
        exact (congrArg Form.elements (ArrayData.kind_ofSize _ _)).trans form.symm

/-- Fields of an object are written. -/
theorem paces_modifyFields (ref : Machine → Ref) {change : Machine → Fields → Fields}
    (size : ∀ machine fields, (change machine fields).size = fields.size) :
    PacesIn scope (modify fun machine => machine.modifyHeap fun heap =>
      heap.modifyFields (ref machine) (change machine) : Guest PUnit) :=
  .modify fun machine => shapes_modifyHeap (.modifyFields _ _ (size machine))

/-- Elements of an array are written. -/
theorem paces_setElement (array : Ref) (index : Nat) (value : Value) :
    PacesIn scope (modify fun machine => machine.modifyHeap fun heap => heap.modifyArray array fun data =>
      data.set index value : Guest PUnit) :=
  .modify fun _ => shapes_modifyHeap (.modifyArray _ _ (fun data => data.byteSize_set index value)
    fun data => data.kind_set index value)

theorem allots_newCompactString (bytes : List Int8) (coder : Int8) :
    AllotsIn scope (newCompactString bytes coder) := by
  refine .get_bind fun machine => .preceded (allots_newArrayOf _ _).paces fun value =>
    (allots_newInstance _).followed fun string made => ?_
  refine ((paces_modifyFields (fun _ => string) fun _ fields => ?_).tallies made).bind
    fun _ _ _ _ => Moves.pure .refl rfl
  rw [Fields.setInt, Fields.setRef, Fields.size_set, Fields.size_set]

/-- A string is an instance of the class of strings and has an array of bytes. -/
theorem paces_newCompactString (bytes : List Int8) (coder : Int8) :
    PacesIn scope (newCompactString bytes coder) := by
  refine PacesIn.get_bind fun machine => (moves_newBytes rfl machine).bind fun value between made _ =>
    (moves_newInstance fun shapely => made.known ▸ shapely.known.string).bind
      fun string after _ _ => ?_
  refine PacesIn.bind (paces_modifyFields (fun _ => string) fun _ fields => ?_) (fun _ => .pure _) after
  rw [Fields.setInt, Fields.setRef, Fields.size_set, Fields.size_set]

theorem allots_newString (text : String) : AllotsIn scope (newString text) :=
  allots_newCompactString _ _

theorem paces_newString (text : String) : PacesIn scope (newString text) :=
  paces_newCompactString _ _

theorem allots_newStringOfUnits (units : List UInt16) :
    AllotsIn scope (newStringOfUnits units) :=
  allots_newCompactString _ _

theorem paces_newStringOfUnits (units : List UInt16) : PacesIn scope (newStringOfUnits units) :=
  paces_newCompactString _ _

/-! ## Exceptions -/

theorem moves_loadRaw (name : String) (machine : Machine) :
    Moves (ShapedIn scope) (loadRaw name) machine fun loaded after =>
      machine.registry.Prefixes after.registry.toClassTable ∧
        ∀ id, loaded = .ok id → after.registry.find? name = some id :=
  Moves.of_ok rfl (shapes_load name) (machine.registry.prefixes_load name)

theorem paces_loadRaw (name : String) : PacesIn scope (loadRaw name) :=
  fun machine => (moves_loadRaw name machine).mono fun _ _ _ _ => trivial

theorem allots_newThrowable (className : String) (message : Option String) :
    AllotsIn scope (newThrowable className message) := by
  refine .preceded (paces_loadRaw className).tallies fun loaded =>
    .preceded (paces_ofLoad loaded).tallies fun id => ?_
  cases message with
  | none => exact (allots_newInstance id).followed fun _ _ => Moves.pure .refl rfl
  | some message =>
      refine (allots_newInstance id).followed fun ref made =>
        ((allots_newString message).paces made).bind fun text written _ _ => ?_
      refine ((paces_modifyFields (fun _ => ref) fun _ fields => ?_).tallies written).bind
        fun _ _ _ _ => Moves.pure .refl rfl
      rw [Fields.setRef, Fields.size_set]

/-- A throwable is an instance of its class, which is no array class. -/
theorem paces_newThrowable {className : String} (ordinary : ArrayName.isArrayName className = false)
    (message : Option String) : PacesIn scope (newThrowable className message) := by
  refine fun machine => (moves_loadRaw className machine).bind ?_
  rintro loaded between - ⟨-, found⟩
  cases loaded with
  | error error => exact Moves.throw_bind .refl
  | ok id =>
      refine (moves_newInstance fun shapely => shapely.laid.makes_of_ordinary ordinary (found id rfl)).bind
        fun ref after _ _ => ?_
      cases message with
      | none => exact PacesIn.pure ref after
      | some message =>
          refine (paces_newString message after).bind fun text written _ _ => ?_
          refine PacesIn.bind (paces_modifyFields (fun _ => ref) fun _ fields => ?_)
            (fun _ => .pure _) written
          rw [Fields.setRef, Fields.size_set]

/-- Raising an exception never returns. -/
theorem moves_raise (kind : ExceptionKind) (message : Option String) (machine : Machine)
    (returned : α → Machine → Prop) :
    Moves (ShapedIn scope) (raise kind message : Guest α) machine returned :=
  (paces_newThrowable kind.isArrayName_className _ machine).bind fun _ _ _ _ => Moves.throw .refl

theorem paces_raise (kind : ExceptionKind) (message : Option String) :
    PacesIn scope (raise kind message : Guest α) :=
  fun machine => moves_raise kind message machine _

theorem paces_raiseNull (message : String) : PacesIn scope (raiseNull message : Guest α) :=
  paces_raise _ _

theorem paces_classOf (ref : Ref) : PacesIn scope (classOf ref) :=
  PacesIn.get.bind fun _ => paces_require _ _

theorem allots_newArray (id : ClassId) (size : Int32) : AllotsIn scope (newArray id size) := by
  rw [newArray]
  split
  · exact fun machine => (moves_raise _ _ machine _).of_related fun _ shaped => shaped.counted
  · exact allots_newZeroArray _ _

theorem paces_newArray (id : ClassId) (size : Int32) : PacesIn scope (newArray id size) := by
  rw [newArray]
  split
  · exact paces_raise _ _
  · exact paces_newZeroArray _ _

/-! ## Canonical objects -/

/-- A string that is interned is the canonical one of its text from then on. -/
theorem moves_internString (text : String) (machine : Machine) :
    Moves (ShapedIn scope) (internString text) machine fun ref after =>
      after.interned[text]? = some ref ∧ after.registry = machine.registry := by
  refine Moves.get_bind ?_
  cases found : machine.interned[text]? with
  | some ref => exact Moves.pure .refl ⟨found, rfl⟩
  | none =>
      have spares : Spares (fun machine : Machine => (machine.registry, machine.interned))
          (newString text) := spares_newString (fun _ _ => rfl) text
      refine ((paces_newString text machine).and_ends (spares machine)).bind ?_
      rintro ref after - ⟨-, spared⟩
      obtain ⟨registry, interned⟩ := Prod.mk.inj spared
      have fresh : after.interned[text]? = none := by
        rw [interned]
        exact found
      exact Moves.modify_bind (.single (.intern ref fresh))
        (Moves.pure .refl ⟨Std.HashMap.getElem?_insert_self, registry⟩)

theorem paces_internObject? (ref : Ref) : PacesIn scope (internObject? ref) := by
  refine PacesIn.get_bind fun machine => ?_
  cases machine.stringText? ref with
  | none => exact PacesIn.pure _ machine
  | some text =>
      cases found : machine.interned[text]? with
      | some canonical =>
          simp only [found]
          exact PacesIn.pure _ machine
      | none =>
          simp only [found]
          have interns : Shaped scope machine (machine.intern text ref) := .intern ref found
          exact Moves.modify_bind (.single interns) (PacesIn.pure _ _)

theorem paces_mirror (id : ClassId) : PacesIn scope (mirror id) := by
  refine PacesIn.get_bind fun machine => ?_
  cases found : (machine.cls id).mirror with
  | some ref => exact PacesIn.pure _ machine
  | none =>
      have spares : Spares Machine.registry (newInstance machine.known.cls) :=
        spares_newInstance (fun _ _ => rfl) _
      have makes : Moves (ShapedIn scope) (newInstance machine.known.cls) machine fun _ _ => True :=
        moves_newInstance fun shapely => shapely.known.cls
      refine (makes.and_ends (spares machine)).bind ?_
      rintro ref after - ⟨-, spared⟩
      have none : (after.cls id).mirror = none := by
        rw [cls, spared]
        exact found
      have written : ShapedIn scope after (after.modifyHeap fun heap =>
          (heap.modifyFields ref fun fields =>
            fields.set machine.known.classNumber (UInt32.ofNat id.index)).setSticky ref) :=
        shapes_modifyHeap ((Heap.Rewrites.modifyFields _ _ fun fields =>
          fields.size_set _ _).trans (.setSticky _ _))
      refine Moves.modify_bind
        (written.trans (shapes_modifyClass id ?_ (fun _ => rfl) (fun _ => rfl) fun _ => rfl)) (PacesIn.pure _ _)
      refine ⟨rfl, rfl, rfl, rfl, rfl, rfl, rfl, rfl, rfl, fun other held => ?_⟩
      cases none.symm.trans held

theorem allots_cloneObject (ref : Ref) : AllotsIn scope (cloneObject ref) := by
  refine .get_bind fun machine => ?_
  dsimp only
  split
  · exact fun _ => Moves.throw .refl
  · split
    · exact allots_alloc (fun _ => rfl) fun _ => ⟨rfl, rfl⟩
    · split
      · exact allots_alloc (fun _ => rfl) fun _ => ⟨rfl, rfl⟩
      · exact fun machine => (moves_raise _ _ machine _).of_related fun _ shaped => shaped.counted

/-- A copy has room for what the object has room for. -/
theorem paces_cloneObject (ref : Ref) : PacesIn scope (cloneObject ref) := by
  refine PacesIn.get_bind fun machine => ?_
  dsimp only
  split
  · exact Moves.throw .refl
  next object live =>
      have copies : Moves (ShapedIn scope) (alloc object.payload fun hash =>
          { cls := object.cls, hash, body := object.body }) machine fun _ _ => True := by
        refine moves_alloc (fun _ => ?_) (fun _ => ⟨rfl, rfl⟩) .refl fun shapely _ => ?_
        · rfl
        · exact ⟨(shapely.forms live).known, (shapely.forms live).form⟩
      split
      · exact copies
      · split
        · exact copies
        · exact moves_raise _ _ machine _

/-! ## Arrays -/

theorem paces_arrayOperands (action : String) : PacesIn scope (arrayOperands action) := by
  refine (paces_fromStack _).bind fun slot => (paces_fromStack _).bind fun array => ?_
  cases array with
  | none => exact paces_raiseNull _
  | some array =>
      refine PacesIn.get.bind fun machine => ?_
      dsimp only
      split
      · exact paces_fault _
      · split
        · exact paces_raise _ _
        · exact .pure _

theorem paces_loadElement : PacesIn scope loadElement :=
  (paces_arrayOperands _).bind fun _ => PacesIn.get.bind fun _ => (paces_require _ _).bind fun _ =>
    (paces_require _ _).bind fun _ => paces_onStack _

theorem paces_checkElement (array : Class) (value : Value) :
    PacesIn scope (checkElement array value) := by
  rw [checkElement.eq_def]
  split
  · refine (paces_classOf _).bind fun held => PacesIn.get.bind fun machine => ?_
    split
    · exact .pure _
    · split
      · exact paces_raise _ _
      · exact .pure _
  · exact .pure _

theorem paces_storeElement (kind : Kind) : PacesIn scope (storeElement kind) := by
  refine (paces_fromStack _).bind fun value => (paces_arrayOperands _).bind fun (array, index) => ?_
  refine PacesIn.get.bind fun machine => (paces_classOf array).bind fun held => ?_
  refine (paces_checkElement _ value).bind fun _ => PacesIn.get.bind fun machine => ?_
  dsimp only
  split
  · exact paces_setElement array index _
  · exact paces_fault _

theorem paces_arrayLength : PacesIn scope arrayLength := by
  refine (paces_fromStack _).bind fun array => ?_
  cases array with
  | none => exact paces_raiseNull _
  | some array =>
      refine PacesIn.get.bind fun machine => ?_
      split
      · exact paces_fault _
      · exact paces_onStack _

theorem paces_newNestedArray (id : ClassId) (counts : List Int32) :
    PacesIn scope (newNestedArray id counts) := by
  induction id, counts using newNestedArray.induct with
  | case1 id => exact paces_fault _
  | case2 id count => exact paces_newArray id count
  | case3 id count inner _ ih =>
      rw [newNestedArray]
      · refine (paces_newArray id count).bind fun array => PacesIn.get.bind fun machine =>
          (paces_require _ _).bind fun component => ?_
        refine PacesIn.bind (.forM fun index => (ih component).bind fun row =>
          paces_setElement array index _) fun _ => .pure _
      · assumption

theorem paces_popCounts (remaining : Nat) (counts : List Int32) :
    PacesIn scope (popCounts remaining counts) := by
  induction remaining generalizing counts with
  | zero => exact .pure _
  | succ remaining ih => exact (paces_fromStack _).bind fun _ => ih _

theorem paces_pushNestedArray (id : ClassId) (dimensions : Nat) :
    PacesIn scope (pushNestedArray id dimensions) := by
  refine (paces_popCounts dimensions []).bind fun counts => ?_
  split
  · exact paces_raise _ _
  · exact (paces_newNestedArray id counts).bind fun _ => paces_onStack _

end Guest

end Jvm
