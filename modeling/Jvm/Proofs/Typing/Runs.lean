import Jvm.Proofs.Changing.Tracing
import Jvm.Proofs.Typing.Calls

/-!
# Arrays along runs

A machine starts with arrays that suit their elements, and each thing that may happen to it keeps
them so. There is one exception: an instruction that asks for a clone may find a receiver that
nothing names any more, since operands are taken by their values and only those that are tagged
are roots. A collection before the clone is made then frees its elements.
-/

namespace Jvm

open Guest Machine SystemNative ClassTable

/-! ## Runs -/

namespace Machine

/-- Whether a machine differs from another one in what is neither classes nor objects: executions
and their frames, clocks, consoles, results, handles, natives, settings of the debugger. -/
structure Sidesteps (before after : Machine) : Prop where
  registry : after.registry = before.registry
  known : after.known = before.known
  objects : after.heap.objects = before.heap.objects
  free : after.heap.free = before.heap.free
  used : after.heap.usedBytes = before.heap.usedBytes
  counts : before.heap.SameCounts after.heap

/-- What may happen to a machine next, if no clone is made of what is not reached. A native that
runs other code to its end is not one step but those that it consists of. -/
inductive Unrolls (bounds : Bounds) (before : Machine) : Machine → Prop
  /-- The running execution goes on by an instruction, which runs no other code to its end. -/
  | step {after : Machine} (plain : Host.runStep bounds.reentry before =
        Host.runStep bounds.reentry.staging before)
      (reached : before.ClonesReached)
      (leaves : Jvm.Leaves (Host.runStep bounds.reentry) before after) : Unrolls bounds before after
  /-- A native of the machine's own runs for the host. -/
  | builtin {own : Builtin} {arguments : NativeArgs} {after : Machine}
      (plain : own.run bounds.reentry arguments before =
        own.run bounds.reentry.staging arguments before)
      (reached : before.ReachesCloned (some (.builtin own, arguments)))
      (leaves : Jvm.Leaves (own.run bounds.reentry arguments) before after) :
      Unrolls bounds before after
  /-- A call is staged on the running execution. -/
  | enter {id : MethodId} {arguments : List Value} {after : Machine} (defers : before.Defers id)
      (leaves : Jvm.Leaves (Host.enterMethod bounds.reentry
        (Host.runToCompletion bounds.reentry bounds.slices) id arguments) before after) :
      Unrolls bounds before after
  /-- A thread is prepared. -/
  | prepare {id : MethodId} {arguments : List Value} {after : Machine} (defers : before.Defers id)
      (leaves : Jvm.Leaves (bounds.reentry.prepare id arguments) before after) :
      Unrolls bounds before after
  /-- Initializers are staged on the running execution. -/
  | stageInitializers {id : ClassId} {after : Machine}
      (leaves : Jvm.Leaves (do Host.settle (← Host.attempt (Guest.ensureInitialized id 0)))
        before after) : Unrolls bounds before after
  /-- The running execution ends. -/
  | abandon : Unrolls bounds before before.abandonExecution
  /-- An exception is thrown on the running execution. -/
  | unwind {ref : Ref} {after : Machine} (leaves : Jvm.Leaves (Host.unwind ref) before after) :
      Unrolls bounds before after
  /-- The host defines a class. -/
  | define {bytes : Array UInt8} {after : Machine}
      (plain : ∀ file, ClassFile.parse bytes = .ok file → file.IsPlain)
      (leaves : Jvm.Leaves (Host.defineClass bytes) before after) : Unrolls bounds before after
  /-- The host looks up a class. -/
  | load {name : String} {after : Machine} (leaves : Jvm.Leaves (Host.load name) before after) :
      Unrolls bounds before after
  /-- The host makes a string. -/
  | newString {text : String} {after : Machine}
      (leaves : Jvm.Leaves (Host.newString text) before after) : Unrolls bounds before after
  /-- The host makes an array. -/
  | newIntArray {values : Array Int32} {after : Machine}
      (leaves : Jvm.Leaves (Host.newIntArray values) before after) : Unrolls bounds before after
  /-- The host makes an array of strings. -/
  | newStringArray {texts : List String} {after : Machine}
      (leaves : Jvm.Leaves (Host.newStringArray texts) before after) : Unrolls bounds before after
  /-- A method is bound to a native, or its code gets or loses breakpoints. -/
  | rebind (id : MethodId) {change : Method → Method}
      (same : ∀ method, (change method).bodiless = method.bodiless) :
      Unrolls bounds before (before.modifyTable fun table => table.modifyMethod id change)
  /-- The implementation of a native method is looked up. -/
  | bindNative {id : MethodId} {after : Machine}
      (leaves : Jvm.Leaves (Guest.bindNative id) before after) : Unrolls bounds before after
  /-- The target of a call is selected. -/
  | select (receiver : ClassId) (resolved : MethodId) :
      Unrolls bounds before
        { before with registry := (before.registry.resolveVirtual receiver resolved).2 }
  /-- The lock of a call is taken, or given back. -/
  | takeLock {lock : Option Lock} {after : Machine}
      (leaves : Jvm.Leaves (Guest.takeLock lock) before after) : Unrolls bounds before after
  | releaseLock (lock : Option Lock) : Unrolls bounds before (Guest.releaseLock lock before)
  /-- A thread object is told its execution. -/
  | setExecution {thread : Ref} {id : ExecId} {after : Machine}
      (leaves : Jvm.Leaves (ThreadNative.setExecution thread id) before after) :
      Unrolls bounds before after
  /-- Garbage is collected. -/
  | collect : Unrolls bounds before before.collectGarbage.2
  /-- Something else happens. -/
  | sidestep {after : Machine} (sidesteps : before.Sidesteps after) : Unrolls bounds before after

section

variable {bounds : Bounds} {machine before after : Machine}

theorem Obeys.leaves {ε α : Type} {step : EStateM ε Machine α} (obeys : Obeys step before)
    (leaves : Jvm.Leaves step before after) : after.WellTyped := by
  rcases leaves with ⟨value, ran⟩ | ⟨raised, ran⟩
  · exact ends_of_ok ran obeys
  · have reached := ends_of_error ran obeys
    exact reached

namespace WellTyped

variable (well : before.WellTyped)

include well

theorem of_shapes (shapes : Shapes before after) (typed : after.Typed) : after.WellTyped :=
  ⟨shapes.shapely well.shapely, typed⟩

theorem sidestep (sidesteps : before.Sidesteps after) : after.WellTyped := by
  obtain ⟨registry, known, objects, free, used, counts⟩ := sidesteps
  have rewrites := Heap.Rewrites.of_objects objects free used counts
  have written : Shapes before { before with heap := after.heap } := .single (.write rewrites)
  exact ⟨(written.shapely well.shapely).of_same registry rfl known,
    (well.typed.of_objects objects free used counts).of_same registry rfl known⟩

/-- The interfaces of all arrays are linked, since an array class is. -/
theorem find?_above {name : String} (isAbove : ArrayName.IsAbove name) :
    before.registry.find? name ≠ none := by
  obtain ⟨known, form⟩ := well.shapely.known.byteArray
  rw [Class.form] at form
  split at form
  next => cases form
  next info isArray =>
      obtain ⟨cloneable, serializable, -, first, second⟩ :=
        (well.typed.ranked.bears _ info known isArray).interfaces
      rcases isAbove with rfl | rfl
      · rw [first]
        exact Option.some_ne_none _
      · rw [second]
        exact Option.some_ne_none _

theorem obeys_defineClass {bytes : Array UInt8}
    (plain : ∀ file, ClassFile.parse bytes = .ok file → file.IsPlain) :
    Obeys (Host.defineClass bytes) before := by
  refine well.obeys (Host.paces_defineClass bytes) (Host.ends_linking ?_)
  exact well.typed.answer (.define bytes) fun file parsed =>
    ⟨plain file parsed, fun missing isAbove => (well.find?_above isAbove missing).elim⟩

/-- Whatever happens, arrays go on suiting their elements. -/
theorem of_unrolls (unrolls : Unrolls bounds before after) : after.WellTyped := by
  have typed := well.typed
  have keeps := Reentry.keeps_staging bounds
  have paces := Reentry.paces_staging bounds.paces_reentry
  cases unrolls with
  | step plain reached leaves =>
      rw [Jvm.Leaves, plain] at leaves
      exact (Host.obeys_runStep keeps paces well reached).leaves leaves
  | builtin plain reached leaves =>
      rw [Jvm.Leaves, plain] at leaves
      exact (Builtin.obeys_run keeps paces well _ _ reached).leaves leaves
  | enter defers leaves =>
      refine (well.obeys ?_ (Host.ends_enterMethod_of_typed typed defers _ _ _)).leaves leaves
      exact Host.paces_enterMethod bounds.paces_reentry
        (Host.paces_runToCompletion bounds.paces_reentry _) _ _
  | prepare defers leaves =>
      rw [Jvm.Leaves, ← Reentry.prepare_interpreting defers] at leaves
      exact (well.ends (paces.prepare _ _) (keeps.prepare _ _)).leaves leaves
  | stageInitializers leaves =>
      refine (well.ends ?_ ?_).leaves leaves
      · exact (Host.paces_attempt (paces_ensureInitialized trivial _ _)).bind Host.paces_settle
      · exact (Host.keeps_attempt (keeps_ensureInitialized _ _)).bind Host.keeps_settle
  | abandon => exact well.of_shapes (shapes_abandonExecution before) typed.abandonExecution
  | unwind leaves => exact (well.ends (Host.paces_unwind _) (Host.keeps_unwind _)).leaves leaves
  | define plain leaves => exact (well.obeys_defineClass plain).leaves leaves
  | load leaves => exact (well.ends (Host.paces_load _) (Host.keeps_load _)).leaves leaves
  | newString leaves =>
      exact (well.ends (Host.paces_newString _)
        (Host.keeps_ofGuest (keeps_newString _))).leaves leaves
  | newIntArray leaves =>
      exact (well.ends (Host.paces_newIntArray _) (Host.keeps_newIntArray _)).leaves leaves
  | newStringArray leaves =>
      exact (well.ends (Host.paces_newStringArray _) (Host.keeps_newStringArray _)).leaves leaves
  | rebind id same =>
      exact well.of_shapes (before.shapes_modifyMethod id same) (typed.modifyMethod id _)
  | bindNative leaves => exact (well.ends (paces_bindNative _) (keeps_bindNative _)).leaves leaves
  | select receiver resolved =>
      exact well.of_shapes (shapes_resolveVirtual receiver resolved)
        (typed.resolveVirtual receiver resolved)
  | takeLock leaves => exact (well.ends (paces_takeLock _) (keeps_takeLock _)).leaves leaves
  | releaseLock lock => exact well.releaseLock lock
  | setExecution leaves =>
      exact (well.ends (ThreadNative.paces_setExecution _ _)
        (ThreadNative.keeps_setExecution _ _)).leaves leaves
  | collect => exact well.of_shapes (.single .collect) typed.collectGarbage
  | sidestep sidesteps => exact well.sidestep sidesteps

end WellTyped

end

/-! ## Starting -/

/-- The core classes are ordered by what is assignable to what. -/
theorem ranked_of_extends {path : ClassPath} (plain : path.IsPlain) {table : ClassTable}
    (extended : Linking.Extends path.Provides [] {} table) : table.Ranked := by
  induction extended with
  | refl => exact .empty
  | tail _ registers ih =>
      have joins : Linking.Joins (path.Offers fun _ => False) _ _ := registers.joins
      refine joins.ranked ?_ ?_ ih
      · rintro file (provided | never)
        · exact plain.files file provided
        · exact never.elim
      · rintro file (provided | never) - isAbove
        · exact plain.markers file provided isAbove
        · exact never.elim

theorem typed_of_linked {config : Config} {path : ClassPath} (plain : path.IsPlain)
    (small : config.heapLimit < Heap.handles * Object.headerSize) {machine : Machine}
    (started : linked config path = .ok machine) : machine.Typed := by
  obtain ⟨core, table, _, extended, named, found, rfl⟩ := exists_core_of_linked started
  refine ⟨⟨Heap.balanced_of_empty rfl rfl rfl rfl, small⟩, ranked_of_extends plain extended,
    plain, ?_, ?_⟩
  · simp only [CoreClasses.known, Except.bind_eq_ok, pure, Except.pure, Except.ok.injEq]
      at found
    obtain ⟨_, -, _, -, _, -, _, -, _, -, _, -, _, -, rfl⟩ := found
    exact named.string
  · rintro _ _ _ _ live
    cases live

/-- A machine starts with arrays that suit their elements. -/
theorem wellTyped_of_start {config : Config} {classes : ClassPath}
    (plain : ∀ file, classes.Provides file → file.IsPlain)
    (small : config.heapLimit < Heap.handles * Object.headerSize) {machine : Machine}
    (started : start config classes = .ok machine) : machine.WellTyped := by
  refine ⟨shapely_of_start started, ?_⟩
  simp only [start, Except.bind_eq_ok] at started
  obtain ⟨library, assembled, before, linked, prepared⟩ := started
  have typed := typed_of_linked
    (ClassPath.isPlain_library_append (Except.ok_of_mapError assembled) plain) small linked
  rw [prepareOutOfMemory] at prepared
  dsimp only at prepared
  split at prepared
  next ref made ran =>
      cases prepared
      have made := ends_of_ok ran ((keeps_newThrowable _ _).ends typed)
      exact (made.setSticky ref).of_same rfl rfl rfl
  next => cases prepared
  next => cases prepared

theorem WellTyped.of_run {bounds : Bounds} {origin later : Machine} (well : origin.WellTyped)
    (run : Relation.ReflTransGen (Unrolls bounds) origin later) : later.WellTyped := by
  induction run with
  | refl => exact well
  | tail _ unrolls ih => exact ih.of_unrolls unrolls

/-! ## What arrays hold -/

section

variable {bounds : Bounds} {later : Machine}

namespace WellTyped

variable (well : later.WellTyped)

include well

/-- What suits an array would pass the check of a store. -/
theorem storable {cls component : ClassId} (found : componentOf later cls = some component)
    {element : Option Ref} (suits : ∀ ref, element = some ref →
      later.heap.Suits later.registry.toClassTable cls ref) : Storable later component element := by
  cases element with
  | none => trivial
  | some ref =>
      obtain ⟨held, part, live, known, inside, below⟩ := suits ref rfl
      cases found.symm.trans inside
      exact ⟨held, live, (well.typed.ranked.isAssignable_iff known
        (well.typed.ranked.has_component? inside)).mpr below⟩

end WellTyped

/-- Stores keep arrays well typed, where no clone is made of what is not reached. A machine
starts well typed if no class file names an array class as its superclass and the files of
interfaces name the root, in a heap that has handles for all objects that fit. Take any run from
such a machine. Then each live array of references has a class for its components, and each of
its elements is null or of a class that is assignable to it. Elements may go unchecked between
two arrays if those of the one class are all arrays of the other: then each of them may be stored
in the other one. -/
theorem arrays_suit_elements (bounds : Bounds) :
    (∀ config (classes : ClassPath) machine, (∀ file, classes.Provides file → file.IsPlain) →
      config.heapLimit < Heap.handles * Object.headerSize →
      start config classes = .ok machine → machine.WellTyped) ∧
    ∀ origin later : Machine, origin.WellTyped →
      Relation.ReflTransGen (Unrolls bounds) origin later →
      (∀ array cls elements, HasArray later array cls (.refs elements) →
        ∃ component, componentOf later cls = some component ∧
          ∀ element ∈ elements, Storable later component element) ∧
      ∀ source target sourceClass targetClass elements old component,
        HasArray later source sourceClass (.refs elements) →
        HasArray later target targetClass (.refs old) →
        checkedAgainst later sourceClass targetClass = none →
        componentOf later targetClass = some component →
          ∀ element ∈ elements, Storable later component element := by
  refine ⟨fun _ _ _ plain small started => wellTyped_of_start plain small started,
    fun origin later well run => ?_⟩
  have well := well.of_run run
  constructor
  · intro array cls elements ⟨live, held⟩
    obtain ⟨component, found⟩ := well.exists_component? live held rfl
    refine ⟨component, found, fun element member => well.storable found fun ref same => ?_⟩
    exact well.typed.suited array cls _ ref live held ⟨elements, rfl, same ▸ member⟩
  · intro source target sourceClass targetClass elements old component ⟨live, held⟩ ⟨live', held'⟩
      unchecked found element member
    refine well.storable found fun ref same => ?_
    exact suits_of_unchecked well live live' unchecked held' rfl held
      ⟨elements, rfl, same ▸ member⟩

end

/-! ## A clone of what nothing names -/

/-- The method of all objects that clones. -/
def cloneMethod : Method where
  owner := ⟨0⟩
  name := "clone"
  descriptor := "()Ljava/lang/Object;"
  flags := 0x101
  params := []
  ret := some .reference
  argSlots := 0
  code := none
  native := some (.builtin (.object .clone))

/-- A method that clones what it finds on its stack. -/
def copyMethod : Method where
  owner := ⟨7⟩
  name := "copy"
  descriptor := "()V"
  flags := 0x9
  params := []
  ret := none
  argSlots := 0
  code := some { maxStack := 1, maxLocals := 0, bytecode := #[0xb7, 0, 1, 0xb1], handlers := [] }
  native := none

/-- The root with its method that clones, the interfaces of arrays, strings, two classes and arrays
of the first one of them, and a class whose method clones what it finds on its stack. -/
def copyingClasses : List Class :=
  [{ memberless 0 ClassTable.objectName none with methods := #[cloneMethod] },
    { memberless 1 ClassTable.cloneableName (some ⟨0⟩) with flags := 0x601 },
    { memberless 2 ClassTable.serializableName (some ⟨0⟩) with flags := 0x601 },
    .ofArray ⟨3⟩ "[B" .byte none ⟨0⟩ [⟨1⟩, ⟨2⟩],
    memberless 4 "java/lang/String" (some ⟨0⟩),
    memberless 5 "demo/A" (some ⟨0⟩),
    .ofArray ⟨6⟩ "[Ldemo/A;" .reference (some ⟨5⟩) ⟨0⟩ [⟨1⟩, ⟨2⟩],
    { memberless 7 "demo/T" (some ⟨0⟩) with
      methods := #[copyMethod]
      pool := ⟨#[.empty, .resolvedMethod ⟨⟨⟨0⟩, 0⟩, 1, false⟩]⟩ }]

def copyingTable : ClassTable := copyingClasses.foldl ClassTable.register {}

/-- An array with an object in it. -/
def copyingHeap : Heap where
  objects := #[
    some { cls := ⟨6⟩, hash := 1, body := .array (.refs #[some (Ref.ofIndex 1)]) },
    some { cls := ⟨5⟩, hash := 2, body := .instance (Fields.ofSize 0) }]
  usedBytes := 36
  limit := 1024
  threshold := 1024
  stress := some 1
  recentObjects := 2
  totalAllocated := 2

/-- A machine that is about to clone the array. The array is on the stack, and whether it is a
reference there is told by the tags. -/
def copying (tags : IndexSet) : Machine :=
  { (default : Machine) with
    registry := { toClassTable := copyingTable }
    known := { (default : Machine).known with
      object := ⟨0⟩, cls := ⟨0⟩, string := ⟨4⟩, thread := ⟨0⟩, byteArray := ⟨3⟩ }
    heap := copyingHeap
    exec := { (default : Machine).exec with
      method := some ⟨⟨7⟩, 0⟩
      stack := { slots := #[1], tags, sp := 1, limit := 64 } } }

/-! ### Its classes -/

theorem find?_copying (name : String) : copyingTable.find? name =
    if "demo/T" = name then some ⟨7⟩ else if "[Ldemo/A;" = name then some ⟨6⟩
    else if "demo/A" = name then some ⟨5⟩ else if "java/lang/String" = name then some ⟨4⟩
    else if "[B" = name then some ⟨3⟩ else if serializableName = name then some ⟨2⟩
    else if cloneableName = name then some ⟨1⟩ else if objectName = name then some ⟨0⟩
    else none := by
  simp only [copyingTable, copyingClasses, List.foldl, find?_register, find?_empty]
  rfl

/-- What holds of each of the classes holds of those that are there. -/
theorem of_copying {motive : ClassId → Prop} (holds : ∀ place < 8, motive ⟨place⟩)
    (id : ClassId) (known : copyingTable.Has id) : motive id :=
  holds id.index known

theorem has_copying {id : ClassId} (below : id.index < 8) : copyingTable.Has id := below

theorem named_copying {name : String} {id : ClassId} (found : copyingTable.find? name = some id) :
    copyingTable.Has id ∧ (copyingTable.get id).name = name := by
  rw [find?_copying] at found
  repeat' split at found
  all_goals cases found
  all_goals
    subst_vars
    exact ⟨has_copying (by decide), rfl⟩

theorem found_copying : copyingTable.find? objectName = some ⟨0⟩ ∧
    copyingTable.find? cloneableName = some ⟨1⟩ ∧
    copyingTable.find? serializableName = some ⟨2⟩ := by
  simp only [find?_copying]
  decide

theorem bears_copying {id : ClassId} {info : ArrayInfo} (known : copyingTable.Has id)
    (isArray : (copyingTable.get id).array = some info) :
    copyingTable.Bears (copyingTable.get id) info := by
  obtain ⟨object, cloneable, serializable⟩ := found_copying
  revert isArray
  revert known
  refine of_copying (motive := fun id => (copyingTable.get id).array = some info →
    copyingTable.Bears (copyingTable.get id) info) (fun place below => ?_) id
  interval_cases place <;> rintro ⟨⟩
  · exact ⟨by decide, by decide, .primitive (by decide +kernel), ⟨rfl, object.symm⟩, ⟨1⟩, ⟨2⟩, rfl,
      cloneable, serializable⟩
  · exact ⟨by decide, by decide, .component (by decide +kernel) rfl, ⟨rfl, object.symm⟩, ⟨1⟩, ⟨2⟩,
      rfl, cloneable, serializable⟩

theorem ranked_copying : copyingTable.Ranked where
  stands := by
    refine of_copying fun place below => ?_
    interval_cases place
    all_goals
      refine ⟨rfl, ?_, by decide, ?_, by decide⟩
      · rintro _ ⟨⟩ <;> decide
      · rintro _ _ ⟨⟩ ⟨⟩ <;> decide
  named _ _ found := named_copying found
  found := by
    refine of_copying fun place below => ?_
    interval_cases place <;> intro _ <;> rw [find?_copying] <;> decide
  bears _ _ := bears_copying
  superclass id above known := by
    refine of_copying (motive := fun id => (copyingTable.get id).superclass = some above →
      (copyingTable.get above).isInterface = false ∧ (copyingTable.get above).array = none)
      (fun place below => ?_) id known
    interval_cases place <;> rintro ⟨⟩ <;> exact ⟨by decide, rfl⟩
  interfaces id iface known := by
    have interfaces : ∀ id, copyingTable.Has id → ∀ iface ∈ (copyingTable.get id).interfaces,
        (copyingTable.get iface).isInterface = true := by
      refine of_copying fun place below => ?_
      interval_cases place <;> decide
    exact interfaces id known iface
  interface := by
    refine of_copying fun place below sort => ⟨⟨0⟩, ?_, found_copying.1⟩
    interval_cases place
    all_goals first | rfl | exact absurd sort (by decide)
  markers name id above found := by
    obtain ⟨-, cloneable, serializable⟩ := found_copying
    rcases above with rfl | rfl
    · cases cloneable.symm.trans found
      exact ⟨by decide, rfl⟩
    · cases serializable.symm.trans found
      exact ⟨by decide, rfl⟩

theorem closed_copying : copyingTable.Closed := by
  have pools : ∀ id, copyingTable.Has id → ∀ index,
      ((copyingTable.get id).pool.slot index).IdsIn copyingTable := by
    refine of_copying fun place below => ?_
    interval_cases place
    case «7» =>
      intro index
      rw [ConstantPool.slot]
      generalize index.toNat = entry
      rcases entry with _ | _ | entry
      · trivial
      · exact ⟨has_copying (by decide), by decide⟩
      · trivial
    all_goals exact fun _ => trivial
  exact ranked_copying.closed fun id index known => pools id known index

theorem laid_copying : copyingTable.Laid := by
  refine ranked_copying.laid (of_copying fun place below => ?_) (of_copying fun place below => ?_)
  · interval_cases place <;> decide
  · interval_cases place <;> rfl

theorem balanced_copying : copyingHeap.Balanced where
  unmarked
    | 0 | 1 | _ + 2 => rfl
  mem_free index := by
    match index with
    | 0 | 1 => simp [copyingHeap, Heap.holds]
    | index + 2 =>
        have outside : ¬index + 2 < 2 := by omega
        simp [copyingHeap, outside]
  nodup_free := List.nodup_nil
  charged := by decide
  bounded := by decide
  counted := by decide
  places := by decide

variable (tags : IndexSet)

theorem spacious_copying : (copying tags).Spacious :=
  ⟨balanced_copying, show 1024 < Heap.handles * Object.headerSize by decide⟩

theorem shapely_copying : (copying tags).Shapely where
  closed := closed_copying
  accounted := balanced_copying.toAccounted
  laid := laid_copying
  known :=
    have made (place : Nat) (below : place < 8)
        (array : (copyingTable.get ⟨place⟩).array = none) : copyingTable.Makes ⟨place⟩ :=
      ⟨below, array⟩
    ⟨made 0 (by decide) rfl, made 4 (by decide) rfl, made 0 (by decide) rfl,
      has_copying (show 3 < 8 by decide), rfl⟩
  objects := by
    intro place object held
    match place with
    | 0 | 1 =>
        cases held
        exact ⟨has_copying (by decide), rfl⟩
    | place + 2 => cases held

theorem wellTyped_copying : (copying tags).WellTyped := by
  refine ⟨shapely_copying tags, spacious_copying tags, ranked_copying, ?_, ?_, ?_⟩
  · exact ⟨nofun, nofun⟩
  · show copyingTable.find? _ = some ⟨4⟩
    rw [find?_copying]
    decide
  · rintro array cls data ref live held contains
    obtain ⟨object, there, rfl⟩ := Option.map_eq_some_iff.mp live
    obtain ⟨object', there', body⟩ := Heap.array?_eq_some_iff.mp held
    cases there.symm.trans there'
    rw [Heap.get?] at there
    generalize array.index = place at there
    rcases place with _ | _ | place
    · cases there
      cases body
      obtain ⟨elements, ⟨⟩, member⟩ := contains
      cases List.mem_singleton.mp (Array.mem_toList_iff.mpr member)
      exact ⟨⟨5⟩, ⟨5⟩, rfl, has_copying (by decide), rfl, .up .refl⟩
    · cases there
      cases body
    · cases there

/-! ### The call -/

theorem method_clone : (copying tags).method ⟨⟨0⟩, 0⟩ = cloneMethod := rfl

theorem callLock?_copying : callLock? (copying tags) ⟨⟨0⟩, 0⟩ = none := by
  have free : (!cloneMethod.isSynchronized) = true := by decide
  rw [callLock?, Machine.lockOf?, method_clone]
  exact if_pos free

theorem frameArgSlots_copying :
    ((copying tags).method ⟨⟨0⟩, 0⟩).frameArgSlots.toNat = 1 := by
  rw [method_clone]
  decide

theorem nativeOf_copying : nativeOf ⟨⟨0⟩, 0⟩ (copying tags) =
    .ok (some (.builtin (.object .clone), ⟨[1]⟩)) (copying tags) := by
  have concrete : ¬cloneMethod.isAbstract = true := by decide
  have native : cloneMethod.isNative = true := by decide
  refine (bind_of_ok (run_get _)).trans ?_
  rw [method_clone, callLock?_copying, if_neg concrete]
  refine (bind_of_ok (rfl : takeLock none (copying tags) = .ok true _)).trans ?_
  rw [if_neg (by decide), if_pos native, boundNative]
  refine (bind_of_ok (rfl : bindNative ⟨⟨0⟩, 0⟩ (copying tags) =
    .ok (.builtin (.object .clone)) _)).trans ?_
  refine (bind_of_ok (run_get _)).trans ?_
  rw [frameArgSlots_copying]
  rfl

theorem callNative_copying (reentry : Reentry) : callNative reentry ⟨⟨0⟩, 0⟩ (copying tags) = (do
    let value ← ObjectNative.run .clone ⟨[1]⟩
    onStack fun stack => stack.setSp 0
    pure value : Guest Value) (copying tags) := by
  refine (bind_of_ok (rfl : bindNative ⟨⟨0⟩, 0⟩ (copying tags) =
    .ok (.builtin (.object .clone)) _)).trans ?_
  refine (bind_of_ok (run_get _)).trans ?_
  rw [frameArgSlots_copying]
  rfl

/-- What a call does of the method that clones. -/
def callOfClone : Guest Step := do
  let value ← onThrow (do
    let value ← ObjectNative.run .clone ⟨[1]⟩
    onStack fun stack => stack.setSp 0
    pure value) (releaseLock none)
  modify fun machine => (releaseLock none machine).modifyExec fun exec =>
    { exec with stack := exec.stack.pushValue value, pc := 3 }
  pure .next

theorem run_callOfClone {machine after : Machine} {value : Value}
    (ran : ObjectNative.run .clone ⟨[1]⟩ machine = .ok value after) :
    callOfClone machine = .ok .next (after.modifyExec fun exec =>
      { exec with stack := (exec.stack.setSp 0).pushValue value, pc := 3 }) := by
  simp only [callOfClone, bind, EStateM.bind, onThrow, ran]
  rfl

theorem invoke_copying (reentry : Reentry) :
    invoke reentry ⟨⟨0⟩, 0⟩ 0 3 (copying tags) = callOfClone (copying tags) := by
  have concrete : ¬cloneMethod.isAbstract = true := by decide
  have native : cloneMethod.isNative = true := by decide
  refine (bind_of_ok (run_get _)).trans ?_
  dsimp only
  rw [method_clone, callLock?_copying, if_neg concrete]
  refine (bind_of_ok (rfl : takeLock none (copying tags) = .ok true _)).trans ?_
  rw [if_neg (by decide), if_pos native]
  simp only [callOfClone, bind, EStateM.bind, onThrow, callNative_copying]

theorem fetch_copying : fetch ⟨⟨7⟩, 0⟩ 0 0xb7 (copying tags) = .ok (some 0xb7) (copying tags) :=
  rfl

theorem read_copying :
    ofDecode ⟨⟨7⟩, 0⟩ (Bytecode.byte #[0xb7, 0, 1, 0xb1] 0) (copying tags) =
      .ok 0xb7 (copying tags) := by
  have read : Bytecode.byte #[0xb7, 0, 1, 0xb1] 0 = .ok 0xb7 := by decide +kernel
  exact congrArg (ofDecode ⟨⟨7⟩, 0⟩ · (copying tags)) read

theorem decode_copying :
    ofDecode ⟨⟨7⟩, 0⟩ (Instr.decode #[0xb7, 0, 1, 0xb1] 0 .invokeSpecial) (copying tags) =
      .ok (.invoke .exact 1, 3) (copying tags) := by
  have decoded : Instr.decode #[0xb7, 0, 1, 0xb1] 0 .invokeSpecial = .ok (.invoke .exact 1, 3) := by
    decide +kernel
  exact congrArg (ofDecode ⟨⟨7⟩, 0⟩ · (copying tags)) decoded

theorem ofByte_copy : Opcode.ofByte 0xb7 = some .invokeSpecial := by decide +kernel

theorem executeByte_copying (reentry : Reentry) :
    executeByte reentry ⟨⟨7⟩, 0⟩ #[0xb7, 0, 1, 0xb1] 0 0xb7 (copying tags) =
      invoke reentry ⟨⟨0⟩, 0⟩ 0 3 (copying tags) := by
  simp only [executeByte, ofByte_copy]
  exact (bind_of_ok (decode_copying tags)).trans rfl

theorem step_copying (reentry : Reentry) :
    Guest.step reentry (copying tags) = invoke reentry ⟨⟨0⟩, 0⟩ 0 3 (copying tags) := by
  exact (bind_of_ok (run_get _)).trans ((bind_of_ok (read_copying tags)).trans
    ((bind_of_ok (fetch_copying tags)).trans (executeByte_copying tags reentry)))

theorem nextNative_copying : nextNative (copying tags) =
    .ok (some (.builtin (.object .clone), ⟨[1]⟩)) (copying tags) := by
  refine (bind_of_ok (run_get _)).trans ((bind_of_ok (read_copying tags)).trans
    ((bind_of_ok (fetch_copying tags)).trans ?_))
  simp only [askedAt, ofByte_copy]
  exact (bind_of_ok (decode_copying tags)).trans (nativeOf_copying tags)

theorem runStep_copying (reentry : Reentry) :
    Host.runStep reentry (copying tags) =
      (Host.attempt callOfClone >>= Host.afterStep) (copying tags) := by
  refine (bind_of_ok (run_modify _ _)).trans ((bind_of_ok (run_get _)).trans ?_)
  have same : Host.attempt (Guest.step reentry) (copying tags) =
      Host.attempt callOfClone (copying tags) := by
    rw [Host.attempt, Host.attempt, step_copying, invoke_copying]
  change (Host.attempt (Guest.step reentry) >>= Host.afterStep) (copying tags) = _
  simp only [bind, EStateM.bind, same]

/-- The array is the one thing on the stack. -/
def tagged : IndexSet := IndexSet.empty.insert 0

theorem reachable_copying : (copying tagged).Reachable (Ref.ofIndex 0) := by
  have named : Ref.ofIndex 0 ∈ (copying tagged).exec.roots := by decide
  exact .root (.running ((Execution.mem_roots _ _).mp named))

theorem clonesReached_copying : (copying tagged).ClonesReached := by
  intro _
  refine Ends.of_ok (nextNative_copying tagged) ?_
  rintro _ _ ⟨⟩ ⟨⟩
  exact reachable_copying

theorem unrolls_copying (bounds : Bounds) {later : Machine}
    (leaves : Jvm.Leaves (Host.runStep bounds.reentry) (copying tagged) later) :
    Unrolls bounds (copying tagged) later := by
  refine .step ?_ clonesReached_copying leaves
  rw [runStep_copying, runStep_copying]

/-- Where the array is a reference on the stack, the elements of it and of its clone suit them. -/
theorem arrays_suit_elements_copying : ∃ later,
    Jvm.Leaves (Host.runStep (default : Bounds).reentry) (copying tagged) later ∧
    ∀ array cls elements, HasArray later array cls (.refs elements) →
      ∃ component, componentOf later cls = some component ∧
        ∀ element ∈ elements, Storable later component element := by
  obtain ⟨later, leaves⟩ : ∃ later,
      Jvm.Leaves (Host.runStep (default : Bounds).reentry) (copying tagged) later := by
    cases ran : Host.runStep (default : Bounds).reentry (copying tagged) with
    | ok value later => exact ⟨later, .inl ⟨value, ran⟩⟩
    | error error later => exact ⟨later, .inr ⟨error, ran⟩⟩
  have run := Relation.ReflTransGen.single (unrolls_copying default leaves)
  exact ⟨later, leaves, ((arrays_suit_elements default).2 _ _ (wellTyped_copying tagged) run).1⟩

/-! ### Freed while it is cloned -/

theorem roots_copying : (copying {}).roots = [] := by
  have interned : (copying {}).interned.values = [] := Std.HashMap.values_empty
  have heap : (copying {}).heap.roots = [] := rfl
  have classes : (copying {}).registry.classes.toList.flatMap Class.references = [] := rfl
  have running : (copying {}).exec.roots = [] := rfl
  rw [roots, interned, heap, classes, running]
  rfl

/-- The heap once both objects are freed. -/
def freedHeap : Heap := { copyingHeap with
  objects := #[none, none]
  free := [1, 0]
  usedBytes := 0
  recentObjects := 0
  collections := 1
  totalFreed := 2 }

theorem collectGarbage_copying :
    (copying {}).collectGarbage.2 = { copying {} with heap := freedHeap } := by
  have unmarked : Heap.mark copyingTable copyingHeap.objects.size [] (copyingHeap, 0) =
      (copyingHeap, 0) := by
    rw [Heap.mark]
  have swept : copyingHeap.sweep = freedHeap := by
    rw [Heap.sweep, show copyingHeap.objects.map _ = #[none, none] by simp [copyingHeap]]
    rfl
  rw [collectGarbage, roots_copying]
  change { copying {} with heap := (copyingHeap.collect copyingTable []).2 } = _
  rw [Heap.collect, unmarked, ← swept]

/-- The heap once the clone is in the place of the object. -/
def clonedHeap : Heap :=
  (freedHeap.nextHash.2.insert
    { cls := ⟨6⟩
      hash := freedHeap.nextHash.1
      body := .array (.refs #[some (Ref.ofIndex 1)]) }).2

theorem run_cloneObject_copying : cloneObject (Ref.ofIndex 0) (copying {}) =
    .ok (Ref.ofIndex 1) { copying {} with heap := clonedHeap } := by
  have due : (copying {}).heap.wantsCollection 20 = true := by decide
  have collects : collectIfDue 20 (copying {}) = .ok ⟨⟩ { copying {} with heap := freedHeap } := by
    refine (bind_of_ok (run_get _)).trans ?_
    rw [due]
    refine (bind_of_ok (run_modifyGet _ _)).trans ?_
    rw [collectGarbage_copying]
    rfl
  refine (bind_of_ok (run_get _)).trans ?_
  change Guest.alloc 4 _ (copying {}) = _
  rw [Guest.alloc, show Heap.objectSize? 4 = some 20 by decide]
  refine (bind_of_ok collects).trans ?_
  rfl

theorem run_clone_copying : ObjectNative.run .clone ⟨[1]⟩ (copying {}) =
    .ok (.ref (some (Ref.ofIndex 1))) { copying {} with heap := clonedHeap } := by
  refine (bind_of_ok (rfl : nonNull (NativeArgs.receiver ⟨[1]⟩) "this" (copying {}) =
    .ok (Ref.ofIndex 0) (copying {}))).trans ?_
  exact (bind_of_ok run_cloneObject_copying).trans rfl

theorem exists_runStep_copying_eq (reentry : Reentry) : ∃ after,
    Host.runStep reentry (copying {}) = .ok none after ∧ after.heap = clonedHeap ∧
      after.registry = (copying {}).registry := by
  have attempted {after : Machine} (ran : callOfClone (copying {}) = .ok .next after) :
      Host.attempt callOfClone (copying {}) = .ok (.ok .next) after := by
    rw [Host.attempt, ran]
  refine ⟨countStep ({ copying {} with heap := clonedHeap }.modifyExec fun exec =>
    { exec with stack := (exec.stack.setSp 0).pushValue (.ref (some (Ref.ofIndex 1))), pc := 3 }),
    ?_, rfl, rfl⟩
  refine (runStep_copying _ reentry).trans ((bind_of_ok
    (attempted (run_callOfClone run_clone_copying))).trans ?_)
  rfl

theorem isAssignable_copying : copyingTable.isAssignable ⟨6⟩ ⟨5⟩ = false := by
  rw [Bool.eq_false_iff]
  intro assignable
  have known : copyingTable.Has ⟨6⟩ ∧ copyingTable.Has ⟨5⟩ :=
    ⟨has_copying (by decide), has_copying (by decide)⟩
  have below := (ranked_copying.isAssignable_iff known.1 known.2).mp assignable
  have named := (ranked_copying.below_iff_of_array known.1 known.2 rfl rfl).mp below
  revert named
  decide

/-- Where it is not, both objects are freed before the clone is made, which is put in the place of
the element and so holds itself. -/
theorem clones_hold_unassignable : (copying {}).WellTyped ∧ ∀ bounds : Bounds, ∃ after,
    Host.runStep bounds.reentry (copying {}) = .ok none after ∧
    HasArray after (Ref.ofIndex 1) ⟨6⟩ (.refs #[some (Ref.ofIndex 1)]) ∧
    componentOf after ⟨6⟩ = some ⟨5⟩ ∧ after.registry.isAssignable ⟨6⟩ ⟨5⟩ = false := by
  refine ⟨wellTyped_copying {}, fun bounds => ?_⟩
  obtain ⟨after, ran, heap, registry⟩ := exists_runStep_copying_eq bounds.reentry
  refine ⟨after, ran, ⟨?_, ?_⟩, ?_, ?_⟩
  · rw [heap]
    rfl
  · rw [heap]
    rfl
  · rw [componentOf, Machine.cls, registry]
    rfl
  · rw [registry]
    exact isAssignable_copying

end Machine

end Jvm
