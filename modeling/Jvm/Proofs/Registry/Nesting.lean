import Jvm.Registry.Load

/-!
# Nested loading

Loading once more, as a plain recursion: the names being linked are kept in the state
beside the table, a name is put on the list while its class is linked, and nothing but a
number bounds how deep loads nest. For every class path, name, table and list there is a
depth that suffices: from there on the recursion does what loading does, never runs out
of depth, and leaves the list as it found it.
-/

namespace Jvm

open ClassTable

/-- A class table with the names being linked, the innermost first. -/
structure Progress where
  table : ClassTable
  linking : List String

/-- Steps that extend the table of a progress. `none` is thrown where loads would nest too
deep. -/
abbrev Nested := EStateM (Option LoadError) Progress

namespace Nested

variable {α β : Type}

/-- A step that does not look at the names being linked. -/
def ofLinking (step : Linking α) : Nested α := fun progress =>
  match step progress.table with
  | .ok value table => .ok value { progress with table }
  | .error error table => .error (some error) { progress with table }

/-- Runs a step while a name is being linked, however it ends. -/
def whileLinking (name : String) (step : Nested α) : Nested α := fun progress =>
  match step { progress with linking := name :: progress.linking } with
  | .ok value after => .ok value { after with linking := after.linking.tail }
  | .error error after => .error error { after with linking := after.linking.tail }

section

variable (load : String → Nested ClassId)

/-- Loads the superclass that a class file names. -/
def superclass (file : ClassFile) : Nested (Option ClassId) :=
  match file.superclass with
  | some superclass => do
    let id ← load superclass
    if ((← get).table.get id).isInterface then
      throw (some (.verifyFailed (.interfaceAsSuperclass file.name superclass)))
    pure (some id)
  | none =>
    if file.name == objectName then pure none
    else ofLinking (Linking.reject (.noSuperclass file.name))

/-- Loads the interfaces that a class file names. -/
def interfaces (name : String) : List String → Nested (List ClassId)
  | [] => pure []
  | iface :: rest => do
    let id ← load iface
    if !((← get).table.get id).isInterface then
      throw (some (.verifyFailed (.implementsClass name iface)))
    let others ← interfaces name rest
    pure (id :: others)

/-- Links a class file: first its ancestors, then the class itself. -/
def define (file : ClassFile) : Nested ClassId := do
  let superclass ← superclass load file
  let interfaces ← interfaces load file.name file.interfaces
  ofLinking (Linking.register file superclass interfaces)

/-- Links the class file of a name, unless the name is being linked. -/
def link (path : ClassPath) (name : String) : Nested ClassId := do
  if name ∈ (← get).linking then throw (some (.circularity name))
  else
    whileLinking name do
      define load (← ofLinking (Linking.ofExcept (path.load name)))

/-- Makes up an array class behind its component and the ancestors of all arrays. -/
def array (name : String) : Nested ClassId := do
  let (kind, component) ←
    match ArrayName.component name with
    | .error error => throw (some error)
    | .ok (.primitive kind) => pure (kind, none)
    | .ok (.named inner) => do pure (Kind.reference, some (← load inner))
  let object ← load objectName
  let cloneable ← load cloneableName
  let serializable ← load serializableName
  ofLinking (Linking.registerArray name kind component object [cloneable, serializable])

end

/-- Loads a class or an array class, with loads nested to a depth. -/
def load (path : ClassPath) : Nat → String → Nested ClassId
  | 0, _ => throw none
  | depth + 1, name => do
    match (← get).table.find? name with
    | some id => pure id
    | none =>
      if ArrayName.isArrayName name then array (load path depth) name
      else link (load path depth) path name

/-- Links a class from the bytes of its file. -/
def defineClass (path : ClassPath) (depth : Nat) (bytes : Array UInt8) : Nested ClassId := do
  let file ← ofLinking (Linking.ofExcept (ClassFile.parse bytes))
  match (← get).table.find? file.name with
  | some _ => ofLinking (Linking.reject (.duplicateClass file.name))
  | none => whileLinking file.name (define (load path depth) file)

/-- Loads the array class of a component class. -/
def arrayOf (path : ClassPath) (depth : Nat) (component : ClassId) : Nested ClassId := do
  let cls := (← get).table.get component
  load path depth (ArrayName.ofComponent cls.name cls.isArray)

/-! ## Depths that suffice -/

/-- Whether steps that may nest deep enough do what a linking step does, and leave the
names being linked as they were. -/
def Carries (linking : List String) (nested : Nat → Nested α) (step : Linking α)
    (table : ClassTable) : Prop :=
  ∃ depth, ∀ more, depth ≤ more → nested more ⟨table, linking⟩ = ofLinking step ⟨table, linking⟩

namespace Carries

variable {linking : List String} {table : ClassTable} {nested : Nat → Nested α} {step : Linking α}

/-- A step that does not nest needs no depth. -/
theorem of_eq (same : ∀ depth, nested depth ⟨table, linking⟩ = ofLinking step ⟨table, linking⟩) :
    Carries linking nested step table :=
  ⟨0, fun more _ => same more⟩

protected theorem bind {first : Nat → Nested β} {start : Linking β} {next : Nat → β → Nested α}
    {rest : β → Linking α} (carries : Carries linking first start table)
    (goesOn : ∀ value after, start table = .ok value after →
      Carries linking (fun depth => next depth value) (rest value) after) :
    Carries linking (fun depth => first depth >>= next depth) (start >>= rest) table := by
  obtain ⟨enough, same⟩ := carries
  cases ran : start table with
  | error error after =>
      refine ⟨enough, fun more deep => ?_⟩
      have first := same more deep
      simp only [bind, EStateM.bind, ofLinking, ran] at first ⊢
      rw [first]
  | ok value after =>
      obtain ⟨further, goesOn⟩ := goesOn value after ran
      refine ⟨max enough further, fun more deep => ?_⟩
      have first := same more (Nat.le_trans (Nat.le_max_left _ _) deep)
      have second := goesOn more (Nat.le_trans (Nat.le_max_right _ _) deep)
      simp only [bind, EStateM.bind, ofLinking, ran] at first second ⊢
      rw [first]
      exact second

/-- Looking at the table takes no depth. -/
theorem of_get {rest : ClassTable → Linking α} (carries : Carries linking nested (rest table) table) :
    Carries linking nested (get >>= rest) table :=
  carries

/-- Nor does looking at it in both. -/
theorem get_bind {next : Nat → Progress → Nested α} {step : Linking α}
    (carries : Carries linking (fun depth => next depth ⟨table, linking⟩) step table) :
    Carries linking (fun depth => get >>= next depth) step table :=
  carries

/-- A step that is taken inside of another one needs one more depth. -/
theorem succ {inner : Nat → Nested α} (carries : Carries linking inner step table)
    (same : ∀ depth, nested (depth + 1) ⟨table, linking⟩ = inner depth ⟨table, linking⟩) :
    Carries linking nested step table := by
  obtain ⟨enough, agrees⟩ := carries
  refine ⟨enough + 1, fun more deep => ?_⟩
  obtain ⟨less, rfl⟩ : ∃ less, more = less + 1 := ⟨more - 1, by omega⟩
  exact (same less).trans (agrees less (Nat.le_of_succ_le_succ deep))

protected theorem whileLinking {name : String}
    (carries : Carries (name :: linking) nested step table) :
    Carries linking (fun depth => whileLinking name (nested depth)) step table := by
  obtain ⟨enough, same⟩ := carries
  refine ⟨enough, fun more deep => ?_⟩
  have inside := same more deep
  simp only [Nested.whileLinking, ofLinking] at inside ⊢
  rw [inside]
  cases step table <;> rfl

end Carries

section

variable {path : ClassPath} {linking : List String} {name : String} {table : ClassTable}

/-- A class that is known is not loaded. -/
theorem carries_of_find? {id : ClassId} (known : table.find? name = some id) :
    Carries linking (load path · name) (pure id) table := by
  have looked : Carries linking (fun _ => pure id) (pure id) table := .of_eq fun _ => rfl
  refine looked.succ fun depth => ?_
  show (match table.find? name with
    | some id => (pure id : Nested ClassId)
    | none => _) ⟨table, linking⟩ = _
  rw [known]

theorem carries_array {step : Linking ClassId} (unnamed : table.find? name = none)
    (isArray : ArrayName.isArrayName name = true)
    (carries : Carries linking (fun depth => array (load path depth) name) step table) :
    Carries linking (load path · name) step table := by
  refine carries.succ fun depth => ?_
  show (match table.find? name with
    | some id => (pure id : Nested ClassId)
    | none => _) ⟨table, linking⟩ = _
  rw [unnamed]
  exact congrFun (if_pos isArray) _

theorem carries_link {step : Linking ClassId} (unnamed : table.find? name = none)
    (ordinary : ArrayName.isArrayName name = false)
    (carries : Carries linking (fun depth => link (load path depth) path name) step table) :
    Carries linking (load path · name) step table := by
  refine carries.succ fun depth => ?_
  show (match table.find? name with
    | some id => (pure id : Nested ClassId)
    | none => _) ⟨table, linking⟩ = _
  rw [unnamed]
  exact congrFun (if_neg (by simp [ordinary])) _

end

/-- The ancestors of all arrays, and then the array itself. -/
theorem carries_registerArray {path : ClassPath} {linking : List String}
    (ancestors : ∀ name table, ArrayName.isArrayName name = false →
      Carries linking (load path · name) (Linking.loadClass path linking name) table)
    (name : String) (kind : Kind) (component : Option ClassId) (table : ClassTable) :
    Carries linking
      (fun depth => do
        let object ← load path depth objectName
        let cloneable ← load path depth cloneableName
        let serializable ← load path depth serializableName
        ofLinking (Linking.registerArray name kind component object [cloneable, serializable]))
      (do
        let object ← Linking.loadClass path linking objectName
        let cloneable ← Linking.loadClass path linking cloneableName
        let serializable ← Linking.loadClass path linking serializableName
        Linking.registerArray name kind component object [cloneable, serializable]) table := by
  refine (ancestors objectName table rfl).bind fun object first _ => ?_
  refine (ancestors cloneableName first rfl).bind fun cloneable second _ => ?_
  refine (ancestors serializableName second rfl).bind fun serializable third _ => ?_
  exact .of_eq fun _ => rfl

mutual

theorem carries_loadClass (path : ClassPath) (linking : List String) (name : String)
    (ordinary : ArrayName.isArrayName name = false) (table : ClassTable) :
    Carries linking (load path · name) (Linking.loadClass path linking name) table := by
  rw [Linking.loadClass]
  apply Carries.of_get
  split
  next id known => exact carries_of_find? known
  next unnamed =>
      apply carries_link unnamed ordinary
      apply Carries.get_bind
      split
      next => exact .of_eq fun _ => rfl
      next fresh =>
          apply Carries.whileLinking
          split
          next missing =>
              refine .of_eq fun _ => ?_
              rw [ClassPath.load, missing]
              rfl
          next bytes found =>
              have fewer :=
                ClassPath.unvisited_cons_lt (ClassPath.mem_names_of_find? found) fresh
              rw [ClassPath.load, found]
              refine Carries.bind (.of_eq fun _ => rfl) fun file after _ => ?_
              exact carries_define path (name :: linking) file after
termination_by (path.unvisited linking, 0, 0)

theorem carries_load (path : ClassPath) (linking : List String) (name : String)
    (table : ClassTable) :
    Carries linking (load path · name) (Linking.load path linking name) table := by
  rw [Linking.load]
  split
  next isArray =>
      have ancestors := fun name table ordinary =>
        carries_loadClass path linking name ordinary table
      apply Carries.of_get
      split
      next id known => exact carries_of_find? known
      next unnamed =>
          apply carries_array unnamed isArray
          split
          next error failed =>
              unfold array
              rw [failed]
              exact .of_eq fun _ => rfl
          next kind found =>
              unfold array
              rw [found]
              exact carries_registerArray ancestors name kind none table
          next inner found =>
              have shorter := ArrayName.length_component isArray found
              dsimp only
              unfold array
              rw [found]
              refine Carries.bind (carries_load path linking inner table)
                fun component after _ => ?_
              exact carries_registerArray ancestors name .reference (some component) after
  next ordinary =>
      exact carries_loadClass path linking name (Bool.eq_false_iff.mpr ordinary) table
termination_by (path.unvisited linking, 1, name.length)

theorem carries_superclass (path : ClassPath) (linking : List String) (file : ClassFile)
    (table : ClassTable) :
    Carries linking (fun depth => superclass (load path depth) file)
      (Linking.loadSuperclass path linking file) table := by
  rw [Linking.loadSuperclass]
  split
  next superclass declared =>
      unfold Nested.superclass
      rw [declared]
      refine (carries_load path linking superclass table).bind fun id after _ => ?_
      apply Carries.of_get
      apply Carries.get_bind
      split <;> exact .of_eq fun _ => rfl
  next missing =>
      unfold superclass
      rw [missing]
      cases file.name == objectName <;> exact .of_eq fun _ => rfl
termination_by (path.unvisited linking, 2, 0)

theorem carries_interfaces (path : ClassPath) (linking : List String) (name : String)
    (declared : List String) (table : ClassTable) :
    Carries linking (fun depth => interfaces (load path depth) name declared)
      (Linking.loadInterfaces path linking name declared) table := by
  cases declared with
  | nil =>
      rw [Linking.loadInterfaces]
      exact .of_eq fun _ => rfl
  | cons iface rest =>
      rw [Linking.loadInterfaces]
      refine (carries_load path linking iface table).bind fun id after _ => ?_
      apply Carries.of_get
      apply Carries.get_bind
      split
      next => exact .of_eq fun _ => rfl
      next =>
          refine (carries_interfaces path linking name rest after).bind fun others last _ => ?_
          exact .of_eq fun _ => rfl
termination_by (path.unvisited linking, 3, declared.length)

theorem carries_define (path : ClassPath) (linking : List String) (file : ClassFile)
    (table : ClassTable) :
    Carries linking (fun depth => define (load path depth) file)
      (Linking.define path linking file) table := by
  rw [Linking.define]
  refine (carries_superclass path linking file table).bind fun superclass first _ => ?_
  refine (carries_interfaces path linking file.name file.interfaces first).bind
    fun interfaces second _ => ?_
  exact .of_eq fun _ => rfl
termination_by (path.unvisited linking, 4, 0)

end

/-- Linking a class past the class path. -/
theorem carries_defineClass (path : ClassPath) (bytes : Array UInt8) (table : ClassTable) :
    Carries [] (defineClass path · bytes) (Linking.defineClass path bytes) table := by
  unfold defineClass
  refine Carries.bind (.of_eq fun _ => rfl) fun file after _ => ?_
  apply Carries.of_get
  apply Carries.get_bind
  cases known : after.find? file.name with
  | some id => exact .of_eq fun _ => rfl
  | none => exact (carries_define path [file.name] file after).whileLinking

theorem carries_arrayOf (path : ClassPath) (component : ClassId) (table : ClassTable) :
    Carries [] (arrayOf path · component) (Linking.arrayOf path component) table := by
  unfold arrayOf
  exact carries_load path [] _ table

end Nested

end Jvm
