import Mathlib.Data.List.Forall2
import Jvm.ClassFile.Parser
import Jvm.Bytes

/-!
# Reading what was written

A reader reads a value from bytes if, wherever the bytes stand, it gives the value and
moves behind them. Readers that are put together read bytes that are put together.
-/

namespace Jvm

/-!
## What class files hold

A class file holds literals and symbolic references only: whatever the parser
accepts, no constant of its pool is resolved, and its methods can be numbered with
sixteen bits.
-/

/-- Whether a constant is one that a class file can hold. -/
def Constant.IsSymbolic : Constant → Prop
  | .resolvedClass _ | .resolvedString _ | .resolvedField _ | .resolvedMethod _ => False
  | _ => True

namespace ConstantPool

/-- Whether no constant of a pool is resolved. -/
def IsSymbolic (pool : ConstantPool) : Prop := ∀ index, (pool.slot index).IsSymbolic

theorem slot_set (pool : ConstantPool) (index other : UInt16) (constant : Constant) :
    (pool.set index constant).slot other =
      if index = other ∧ index.toNat < pool.size then constant else pool.slot other := by
  simp only [slot, set, size, Array.getD_eq_getD_getElem?, Array.getElem?_setIfInBounds]
  by_cases same : index = other
  · subst same
    by_cases inside : index.toNat < pool.entries.size <;> simp [inside]
  · have different : ¬index.toNat = other.toNat := fun equal => same (UInt16.toNat_inj.mp equal)
    simp [same, different]

theorem isSymbolic_ofSize (count : UInt16) : (ofSize count).IsSymbolic := by
  intro index
  have empty : (ofSize count).slot index = .empty := by
    simp only [slot, ofSize, Array.getD_eq_getD_getElem?, Array.getElem?_replicate]
    split <;> rfl
  rw [empty]
  exact trivial

theorem IsSymbolic.set {pool : ConstantPool} (symbolic : pool.IsSymbolic) (index : UInt16)
    {constant : Constant} (here : constant.IsSymbolic) : (pool.set index constant).IsSymbolic := by
  intro other
  rw [slot_set]
  split
  · exact here
  · exact symbolic other

end ConstantPool

/-- Whether everything that a reader can give satisfies a condition. -/
def Reader.Gives {α : Type} (read : Reader α) (condition : α → Prop) : Prop :=
  ∀ cursor value rest, read cursor = .ok (value, rest) → condition value

namespace Reader.Gives

variable {α β : Type} {condition : α → Prop}

protected theorem pure {value : α} (holds : condition value) :
    Gives (pure value : Reader α) condition := by
  rintro cursor _ rest ⟨⟩
  exact holds

protected theorem throw {error : LoadError} : Gives (throw error : Reader α) condition := by
  intro cursor value rest never
  cases never

/-- What is read first is of no account. -/
theorem skip {read : Reader β} {next : β → Reader α}
    (later : ∀ value, Gives (next value) condition) : Gives (read >>= next) condition := by
  intro cursor value rest ran
  simp only [bind, StateT.bind, Except.bind] at ran
  split at ran
  · cases ran
  · exact later _ _ _ _ ran

protected theorem bind {read : Reader β} {next : β → Reader α} {between : β → Prop}
    (first : Gives read between) (later : ∀ value, between value → Gives (next value) condition) :
    Gives (read >>= next) condition := by
  intro cursor value rest ran
  simp only [bind, StateT.bind, Except.bind] at ran
  split at ran
  next => cases ran
  next middle before => exact later _ (first cursor _ _ before) _ _ _ ran

end Reader.Gives

namespace Cursor

open Reader (Gives)

theorem gives_many_go {α : Type} {read : Reader α} (count : Nat) (done : Array α) :
    Gives (many.go read count done) fun items => items.size = done.size + count := by
  induction count generalizing done with
  | zero => exact Gives.pure rfl
  | succ count ih =>
      refine Gives.skip fun next => ?_
      have more := ih (done.push next)
      rw [Array.size_push, Nat.add_assoc, Nat.add_comm 1] at more
      exact more

theorem gives_many {α : Type} (count : Nat) (read : Reader α) :
    Gives (many count read) fun items => items.size = count := by
  have items := @gives_many_go α read count #[]
  rw [Array.size_empty, Nat.zero_add] at items
  exact items

end Cursor

/-- Whether a class file is as the parser gives it: no constant is resolved, and a
sixteen-bit index tells its methods apart. -/
structure ClassFile.Parsed (file : ClassFile) : Prop where
  pool : file.pool.IsSymbolic
  methods : file.methods.size ≤ UInt16.size

namespace ClassFile

open Reader (Gives)

theorem gives_indexPair {make : UInt16 → UInt16 → Constant}
    (symbolic : ∀ first second, (make first second).IsSymbolic) :
    Gives (indexPair make) Constant.IsSymbolic :=
  Gives.skip fun _ => Gives.skip fun _ => Gives.pure (symbolic _ _)

theorem gives_constant (tag : ConstantTag) (index : UInt16) :
    Gives (constant tag index) Constant.IsSymbolic := by
  cases tag with
  | invalid => exact Gives.pure trivial
  | utf8 =>
      refine Gives.skip fun length => Gives.skip fun bytes => ?_
      split
      · exact Gives.pure trivial
      · exact Gives.throw
  | fieldRef | methodRef | interfaceMethodRef | nameAndType | dynamic | invokeDynamic =>
      exact gives_indexPair fun _ _ => trivial
  | methodHandle => exact Gives.skip fun _ => Gives.skip fun _ => Gives.pure trivial
  | _ => exact Gives.skip fun _ => Gives.pure trivial

theorem gives_constants (count : UInt16) (bound : Nat) (index : UInt16) {pool : ConstantPool}
    (symbolic : pool.IsSymbolic) :
    Gives (constants count bound index pool) ConstantPool.IsSymbolic := by
  induction bound generalizing index pool with
  | zero => exact Gives.pure symbolic
  | succ bound ih =>
      rw [constants]
      split
      · refine Gives.skip fun code => ?_
        split
        · exact Gives.throw
        · exact (gives_constant _ _).bind fun next here => ih _ (symbolic.set index here)
      · exact Gives.pure symbolic

theorem gives_constantPool : Gives constantPool ConstantPool.IsSymbolic :=
  Gives.skip fun _ => Gives.skip fun _ => gives_constants _ _ _ (ConstantPool.isSymbolic_ofSize _)

theorem gives_counted {α : Type} (read : Reader α) :
    Gives (counted read) fun items => items.size ≤ UInt16.size :=
  Gives.skip fun count => fun cursor items rest ran =>
    Nat.le_trans (Nat.le_of_eq (Cursor.gives_many count.toNat read cursor items rest ran))
      (Nat.le_of_lt count.toNat_lt)

theorem gives_reader : Gives reader Parsed := by
  rw [reader]
  refine Gives.skip fun magic => ?_
  split
  · exact Gives.throw
  · refine Gives.skip fun minorVersion => Gives.skip fun majorVersion => ?_
    split
    · exact Gives.throw
    · refine Gives.bind gives_constantPool fun pool symbolic => ?_
      refine Gives.skip fun flags => Gives.skip fun name => Gives.skip fun superIndex => ?_
      split
      case' isTrue => refine Gives.skip fun superclass => ?_
      case' isFalse => refine Gives.skip fun _ => Gives.skip fun superclass => ?_
      all_goals
        refine Gives.skip fun interfaces => Gives.skip fun fields => ?_
        refine Gives.bind (gives_counted _) fun methods few => ?_
        refine Gives.skip fun sourceFile => Gives.skip fun cursor => ?_
        split
        · exact Gives.pure ⟨symbolic, few⟩
        · exact Gives.throw

theorem parsed_of_parse {bytes : Array UInt8} {file : ClassFile}
    (parsed : parse bytes = .ok file) : file.Parsed := by
  rw [parse] at parsed
  split at parsed
  next rest ran =>
      cases parsed
      exact gives_reader _ _ _ ran
  next => cases parsed

end ClassFile

/-! ## Readers of bytes -/

namespace Bytes

variable {bytes : Array UInt8} {offset : Nat} {part : List UInt8}

/-- What is cut out where a part stands is the part. -/
theorem At.extract_eq (here : At bytes offset part) (inside : offset + part.length ≤ bytes.size) :
    bytes.extract offset (offset + part.length) = part.toArray := by
  apply Array.ext_getElem?
  intro index
  simp only [Array.getElem?_extract, List.getElem?_toArray]
  by_cases within : index < part.length
  · rw [if_pos (by omega), here index within]
  · rw [if_neg (by omega), List.getElem?_eq_none (Nat.le_of_not_lt within)]

end Bytes

/-- Whether a reader reads a value from bytes, wherever they stand. -/
def Reader.Reads {α : Type} (read : Reader α) (part : List UInt8) (value : α) : Prop :=
  ∀ cursor : Cursor, cursor.offset + part.length ≤ cursor.bytes.size →
    Bytes.At cursor.bytes cursor.offset part →
    read cursor = .ok (value, { cursor with offset := cursor.offset + part.length })

namespace Reader.Reads

variable {α β : Type} {part first second : List UInt8}

protected theorem pure (value : α) : Reads (pure value : Reader α) [] value :=
  fun _ _ _ => rfl

protected theorem bind {read : Reader β} {next : β → Reader α} {middle : β} {value : α}
    (early : Reads read first middle) (late : Reads (next middle) second value) :
    Reads (read >>= next) (first ++ second) value := by
  intro cursor inside here
  rw [List.length_append, ← Nat.add_assoc] at inside
  have begun := early cursor (by omega) here.left
  have ended := late { cursor with offset := cursor.offset + first.length } inside here.right
  simp only [bind, StateT.bind, Except.bind, begun, ended]
  rw [List.length_append, Nat.add_assoc]

protected theorem lift {step : Except LoadError α} {value : α} (ran : step = .ok value) :
    Reads (liftM step : Reader α) [] value := by
  subst ran
  exact Reads.pure value

/-- A step that reads nothing goes before the rest. -/
theorem lift_bind {step : Except LoadError β} {next : β → Reader α} {middle : β} {value : α}
    (ran : step = .ok middle) (late : Reads (next middle) part value) :
    Reads ((liftM step : Reader β) >>= next) part value := by
  subst ran
  exact late

/-- A step that needs no more bytes goes behind the rest. -/
theorem last {read : Reader β} {next : β → Reader α} {middle : β} {value : α}
    (early : Reads read part middle) (late : Reads (next middle) [] value) :
    Reads (read >>= next) part value := by
  rw [← List.append_nil part]
  exact early.bind late

/-- Reading goes on with what has been read. -/
theorem map {read : Reader β} (change : β → α) {middle : β} (early : Reads read part middle) :
    Reads (do pure (change (← read))) part (change middle) :=
  early.last (Reads.pure (change middle))

end Reader.Reads

/-- Whether a reader reads a value from the last bytes. -/
def Reader.ReadsLast {α : Type} (read : Reader α) (part : List UInt8) (value : α) : Prop :=
  ∀ cursor : Cursor, cursor.offset + part.length = cursor.bytes.size →
    Bytes.At cursor.bytes cursor.offset part →
    read cursor = .ok (value, { cursor with offset := cursor.bytes.size })

namespace Reader.ReadsLast

variable {α β : Type} {first second : List UInt8}

protected theorem bind {read : Reader β} {next : β → Reader α} {middle : β} {value : α}
    (early : Reads read first middle) (late : ReadsLast (next middle) second value) :
    ReadsLast (read >>= next) (first ++ second) value := by
  intro cursor ends here
  rw [List.length_append, ← Nat.add_assoc] at ends
  have begun := early cursor (by omega) here.left
  have ended := late { cursor with offset := cursor.offset + first.length } ends here.right
  simp only [bind, StateT.bind, Except.bind, begun, ended]

theorem lift_bind {step : Except LoadError β} {next : β → Reader α} {middle : β} {value : α}
    (ran : step = .ok middle) (late : ReadsLast (next middle) second value) :
    ReadsLast ((liftM step : Reader β) >>= next) second value := by
  subst ran
  exact late

end Reader.ReadsLast

namespace Cursor

open Reader (Reads)

theorem take_eq {cursor : Cursor} {count : Nat}
    (inside : cursor.offset + count ≤ cursor.bytes.size) :
    take count cursor = .ok (cursor, { cursor with offset := cursor.offset + count }) :=
  if_neg (Nat.not_lt.mpr inside)

/-- The bytes ahead of a cursor, one by one. -/
theorem byteAt_of_at {cursor : Cursor} {part : List UInt8}
    (here : Bytes.At cursor.bytes cursor.offset part) (index : Nat) {byte : UInt8}
    (found : part[index]? = some byte) : cursor.byteAt index = byte := by
  rw [byteAt, Array.getD_eq_getD_getElem?, here.getElem? index found, Option.getD_some]

theorem reads_byte (value : UInt8) : Reads byte [value] value := by
  intro cursor inside here
  have taken : take 1 cursor = _ := take_eq inside
  have first := byteAt_of_at here 0 rfl
  simp only [byte, bind, StateT.bind, Except.bind, taken, first]
  rfl

theorem reads_short (value : UInt16) : Reads short (Bytes.ofShort value) value := by
  intro cursor inside here
  have taken : take 2 cursor = _ := take_eq inside
  have first := byteAt_of_at here 0 rfl
  have second := byteAt_of_at here 1 rfl
  simp only [short, bind, StateT.bind, Except.bind, taken, first, second,
    Bytes.join_ofShort]
  rfl

theorem reads_word (value : UInt32) : Reads word (Bytes.ofWord value) value := by
  intro cursor inside here
  have taken : take 4 cursor = _ := take_eq inside
  have first := byteAt_of_at here 0 rfl
  have second := byteAt_of_at here 1 rfl
  have third := byteAt_of_at here 2 rfl
  have fourth := byteAt_of_at here 3 rfl
  simp only [word, bind, StateT.bind, Except.bind, taken, first, second, third, fourth,
    Bytes.join_ofWord]
  rfl

theorem reads_longWord (value : UInt64) : Reads longWord (Bytes.ofLongWord value) value := by
  have low := (reads_word value.toUInt32).map fun low =>
    ((value >>> 32).toUInt32.toUInt64 <<< 32) ||| low.toUInt64
  rw [Bytes.join_ofLongWord] at low
  exact (reads_word _).bind low

theorem reads_bytes? (part : List UInt8) : Reads (bytes? part.length) part part.toArray := by
  intro cursor inside here
  simp only [bytes?, bind, StateT.bind, Except.bind, take_eq inside]
  exact congrArg (fun values => Except.ok (values, _)) (here.extract_eq inside)

/-- Things that are read one after the other. -/
theorem reads_many {α : Type} {read : Reader α} {parts : List (List UInt8)} {values : List α}
    (each : List.Forall₂ (Reads read) parts values) :
    Reads (many parts.length read) parts.flatten values.toArray := by
  have go : ∀ done : Array α,
      Reads (many.go read parts.length done) parts.flatten (done ++ values.toArray) := by
    induction each with
    | nil =>
        intro done
        have none : Reads (many.go read 0 done) [] done := Reads.pure done
        simpa using none
    | @cons part value parts values first rest ih =>
        intro done
        rw [List.flatten_cons, show done ++ (value :: values).toArray =
          done.push value ++ values.toArray by simp]
        exact first.bind (ih (done.push value))
  have whole := go #[]
  rwa [Array.empty_append] at whole

/-- A reading that is done once. -/
theorem reads_fold_once {α : Type} {read : α → Reader α} {start value : α} {part : List UInt8}
    (once : Reads (read start) part value) : Reads (fold 1 start read) part value :=
  once.last (Reads.pure value)

theorem reads_fold_never {α : Type} {read : α → Reader α} (start : α) :
    Reads (fold 0 start read) [] start :=
  Reads.pure start

/-- Nothing is left behind the last bytes. -/
theorem available_eq_empty {cursor : Cursor} (ends : cursor.offset = cursor.bytes.size) :
    cursor.available = #[] := by
  rw [available, ends, Array.extract_eq_empty_of_le (by omega)]

end Cursor

namespace ClassFile

open Cursor
open Reader (Reads ReadsLast)

theorem reads_counted {α : Type} {read : Reader α} {parts : List (List UInt8)} {values : List α}
    (each : List.Forall₂ (Reads read) parts values) (few : parts.length < 65536) :
    Reads (counted read) (Bytes.ofShort (UInt16.ofNat parts.length) ++ parts.flatten)
      values.toArray := by
  have count : (UInt16.ofNat parts.length).toNat = parts.length :=
    UInt16.toNat_ofNat_of_lt' few
  refine (reads_short _).bind ?_
  rw [count]
  exact reads_many each

/-- The check that nothing is left passes behind the last bytes. -/
theorem readsLast_end {α : Type} {fault : FormatFault} {made value : α} (same : made = value) :
    ReadsLast (do
      let cursor ← get
      if cursor.available.isEmpty then pure made else reject fault) [] value := by
  subst same
  intro cursor ends _
  have empty := available_eq_empty ends
  change (if cursor.available.isEmpty = true then pure made else reject fault : Reader α) cursor = _
  rw [empty, ← ends]
  rfl

/-- A file is parsed by reading all its bytes. -/
theorem parse_of_readsLast {bytes : Array UInt8} {file : ClassFile}
    (reads : ReadsLast reader bytes.toList file) : parse bytes = .ok file := by
  have whole : Bytes.At bytes 0 bytes.toList := by
    intro index _
    rw [Nat.zero_add, Array.getElem?_toList]
  have ran := reads { bytes } (by simp) whole
  rw [parse, ran]

end ClassFile

end Jvm
