import Mathlib.Data.List.Sort
import Jvm.Instr
import Jvm.Proofs.Assembler.Lines
import Jvm.Bytes

/-!
# Decoding what was assembled

The assembler writes offsets, keys and bounds as big-endian bytes behind aligned
opcodes. Decoding reads the same numbers at the same places again, although it finds
the places by arithmetic modulo 2^32 of its own.
-/

namespace Jvm

namespace Opcode

/-- Every operation is named by its byte. -/
@[simp] theorem ofByte_byte (opcode : Opcode) : ofByte opcode.byte = some opcode := by
  cases opcode <;> decide +kernel

theorem byte_inj {left right : Opcode} : left.byte = right.byte ↔ left = right := by
  refine ⟨fun same => ?_, fun same => same ▸ rfl⟩
  rw [← Option.some_inj, ← ofByte_byte left, same, ofByte_byte]

end Opcode

namespace Assembler

/-! ## Places -/

/-- A jump by a distance arrives, whatever wraps on the way. -/
theorem add_distance (pc target : Nat) :
    UInt32.ofNat pc + (Int32.ofInt ((target : Int) - pc)).toUInt32 = UInt32.ofNat target := by
  have whole (place : Nat) : (Int32.ofInt (place : Int)).toUInt32 = UInt32.ofNat place := by
    rw [Int32.ofInt_eq_ofNat]
    rfl
  rw [Int32.ofInt_sub, Int32.toUInt32_sub, whole, whole]
  grind

/-- Places in code are far below 2^32. -/
theorem toNat_add_ofNat {pc : UInt32} (more : Nat) (small : pc.toNat + more < 4294967296) :
    (pc + UInt32.ofNat more).toNat = pc.toNat + more := by
  rw [UInt32.toNat_add, UInt32.toNat_ofNat', Nat.add_mod_mod, Nat.mod_eq_of_lt small]

/-- The difference of two keys in ascending order. -/
theorem sub_eq_ofNat {low key : Int32} (ascending : low ≤ key) :
    key.toUInt32 - low.toUInt32 = UInt32.ofNat (key.toInt - low.toInt).toNat := by
  have order := Int.toNat_of_nonneg (Int.sub_nonneg.mpr (Int32.le_iff_toInt_le.mp ascending))
  have difference : key - low = Int32.ofInt (key.toInt - low.toInt) := by
    rw [Int32.ofInt_sub, Int32.ofInt_toInt, Int32.ofInt_toInt]
  rw [← Int32.toUInt32_sub, difference, ← order, Int32.ofInt_eq_ofNat, order]
  rfl

/-! ## Selecting by key -/

section

variable {α β : Type} {related : α → β → Prop}

/-- The row of a table that starts at a lowest key, or a default. -/
def selectRow (low : Int32) (fallback : α) (rows : List α) (key : Int32) : α :=
  if key < low then fallback else (rows[(key.toInt - low.toInt).toNat]?).getD fallback

/-- What the first pair with a key holds, or a default. -/
def selectPair (fallback : α) (pairs : List (Int32 × α)) (key : Int32) : α :=
  ((pairs.find? fun pair => pair.1 = key).map Prod.snd).getD fallback

/-- Related rows are selected from related tables. -/
theorem selectRow_related {low : Int32} {fallback : α} {fallback' : β} {rows : List α}
    {rows' : List β} (default : related fallback fallback')
    (each : List.Forall₂ related rows rows') (key : Int32) :
    related (selectRow low fallback rows key) (selectRow low fallback' rows' key) := by
  unfold selectRow
  split
  · exact default
  · generalize (key.toInt - low.toInt).toNat = index
    induction each generalizing index with
    | nil => exact default
    | cons first _ ih =>
        cases index with
        | zero => exact first
        | succ index => exact ih index

theorem selectPair_related {fallback : α} {fallback' : β} {pairs : List (Int32 × α)}
    {pairs' : List (Int32 × β)} (default : related fallback fallback')
    (each : List.Forall₂ (fun pair pair' => pair.1 = pair'.1 ∧ related pair.2 pair'.2) pairs pairs')
    (key : Int32) : related (selectPair fallback pairs key) (selectPair fallback' pairs' key) := by
  unfold selectPair
  induction each with
  | nil => exact default
  | cons first _ ih =>
      obtain ⟨same, holds⟩ := first
      rw [List.find?_cons, List.find?_cons, same]
      split
      · exact holds
      · exact ih

/-- Sorting by key is stable: the first pair with a key stays the first one. -/
theorem selectPair_sortedPairs (fallback : Label) (pairs : List (Int32 × Label)) (key : Int32) :
    selectPair fallback (sortedPairs pairs) key = selectPair fallback pairs key := by
  let here (pair : Int32 × Label) : Bool := pair.1 = key
  have equal : ∀ pair ∈ pairs.filter here, pair.1 = key := fun pair member =>
    of_decide_eq_true (List.mem_filter.mp member).2
  have level : (pairs.filter here).Pairwise fun left right => decide (left.1 ≤ right.1) = true :=
    List.pairwise_of_forall_mem_list fun left first right second =>
      decide_eq_true ((equal left first).trans (equal right second).symm ▸ Int32.le_refl _)
  have kept : (pairs.filter here).Sublist ((sortedPairs pairs).filter here) := by
    have sorted : (pairs.filter here).Sublist (sortedPairs pairs) :=
      List.sublist_mergeSort (fun _ _ _ => by simpa using Int32.le_trans)
        (fun _ _ => by simpa using Int32.le_total _ _) level List.filter_sublist
    have filtered := sorted.filter here
    rwa [List.filter_filter, funext fun pair => Bool.and_self (here pair)] at filtered
  have same : pairs.filter here = (sortedPairs pairs).filter here :=
    kept.eq_of_length (((List.mergeSort_perm pairs _).filter here).length_eq).symm
  unfold selectPair
  rw [← List.head?_filter, ← List.head?_filter]
  exact congrArg (fun found : List (Int32 × Label) => (found.head?.map Prod.snd).getD fallback)
    same.symm

end

end Assembler

namespace Bytecode

open Assembler

variable {code : Array UInt8} {pc : UInt32}

theorem short_of_at {value : UInt16} (here : Bytes.At code pc.toNat (Bytes.ofShort value)) :
    short code pc = .ok value := by
  have first : code[pc.toNat]? = _ := here.getElem? 0 rfl
  have second : code[pc.toNat + 1]? = _ := here.getElem? 1 rfl
  rw [short, first, second]
  exact congrArg Except.ok (Bytes.join_ofShort value)

theorem word_of_at {value : UInt32} (here : Bytes.At code pc.toNat (Bytes.ofWord value)) :
    word code pc = .ok value := by
  have first : code[pc.toNat]? = _ := here.getElem? 0 rfl
  have second : code[pc.toNat + 1]? = _ := here.getElem? 1 rfl
  have third : code[pc.toNat + 2]? = _ := here.getElem? 2 rfl
  have fourth : code[pc.toNat + 3]? = _ := here.getElem? 3 rfl
  rw [word, first, second, third, fourth]
  exact congrArg Except.ok (Bytes.join_ofWord value)

/-- Two bytes hold a distance that fits them. -/
theorem nearOffset_of_at {distance : Int} (fits : Piece.Fits false distance)
    (here : Bytes.At code pc.toNat (Piece.distanceBytes false distance)) :
    nearOffset code pc = .ok (Int32.ofInt distance).toUInt32 := by
  obtain never | ⟨low, high⟩ := fits
  · cases never
  have extended :
      (Int16.ofInt distance).toUInt16.toInt16.toInt32 = Int32.ofInt distance := by
    have narrow : Int16.size = 65536 := rfl
    have wide : Int32.size = 4294967296 := rfl
    apply Int32.toInt_inj.mp
    rw [Int16.toInt16_toUInt16, Int16.toInt_toInt32, Int16.toInt_ofInt, Int32.toInt_ofInt,
      Int.bmod_eq_of_le, Int.bmod_eq_of_le] <;> omega
  rw [nearOffset, short_of_at here]
  exact congrArg (fun offset => Except.ok offset.toUInt32) extended

/-! ## Switches -/

/-- Clearing the last two bits rounds down to a multiple of four. -/
theorem clear_eq_shift (value : UInt32) : value &&& (0xFFFFFFFC : UInt32) = (value >>> 2) <<< 2 := by
  have mask : ∀ index (inside : index < 32),
      (4294967292#32)[index] = decide (2 ≤ index) := by decide
  apply UInt32.toBitVec_inj.mp
  ext index inside
  simp [mask]
  grind

/-- The operands of a switch start behind the padding. -/
theorem toNat_switchBase (pc : Nat) (small : pc + 4 < 4294967296) :
    (switchBase (UInt32.ofNat pc)).toNat = pc + 1 + (switchPadding pc).length := by
  have place : (UInt32.ofNat pc).toNat = pc := UInt32.toNat_ofNat_of_lt' (by rw [UInt32.size]; omega)
  have behind : (UInt32.ofNat pc + 4).toNat = pc + 4 := by
    rw [show (4 : UInt32) = UInt32.ofNat 4 from rfl, toNat_add_ofNat _ (by omega), place]
  rw [switchBase, clear_eq_shift, UInt32.toNat_shiftLeft, UInt32.toNat_shiftRight, behind]
  simp only [UInt32.reduceToNat, Nat.reduceMod, Nat.shiftRight_eq_div_pow, Nat.shiftLeft_eq,
    switchPadding, List.length_replicate]
  omega

/-- The last key of a table switch. -/
theorem toInt_last {low : Int32} {count : Nat} (nonempty : 0 < count)
    (inside : low.toInt + count - 1 ≤ 2147483647) :
    (low + Int32.ofNat count - 1).toInt = low.toInt + count - 1 := by
  have lowest := low.le_toInt
  have one : (1 : Int32).toInt = 1 := by decide
  rw [Int32.toInt_sub, Int32.toInt_add, Int32.toInt_ofNat', one]
  simp only [Int.add_bmod_bmod, Int.bmod_sub_bmod, Int32.size]
  rw [Int.bmod_eq_of_le] <;> omega

section

variable {key : Int32} {fallback : UInt32}

/-- The words of a row of words. -/
theorem at_row {start index : Nat} {words : List UInt32} {value : UInt32}
    (row : Bytes.At code start (words.flatMap Bytes.ofWord)) (found : words[index]? = some value) :
    Bytes.At code (start + 4 * index) (Bytes.ofWord value) := by
  induction words generalizing start index with
  | nil => cases found
  | cons first words ih =>
      cases index with
      | zero =>
          cases found
          exact row.left
      | succ index =>
          have rest := ih row.right found
          rw [Bytes.length_ofWord] at rest
          rwa [show start + 4 * (index + 1) = start + 4 + 4 * index by omega]

/-- A table switch that was written with rows selects among them. -/
theorem tableOffset_of_at {low : Int32} {rows : List UInt32} (nonempty : 0 < rows.length)
    (inside : low.toInt + rows.length - 1 ≤ 2147483647)
    (small : (switchBase pc).toNat + 12 + 4 * rows.length < 4294967296)
    (here : Bytes.At code (switchBase pc).toNat (Bytes.ofWord fallback ++
      Bytes.ofWord low.toUInt32 ++ Bytes.ofWord (low + Int32.ofNat rows.length - 1).toUInt32 ++
      rows.flatMap Bytes.ofWord)) :
    tableOffset code pc key = .ok (selectRow low fallback rows key) := by
  have second : (switchBase pc + 4).toNat = (switchBase pc).toNat + 4 :=
    toNat_add_ofNat 4 (by omega)
  have third : (switchBase pc + 8).toNat = (switchBase pc).toNat + 8 :=
    toNat_add_ofNat 8 (by omega)
  have fourth : (switchBase pc + 12).toNat = (switchBase pc).toNat + 12 :=
    toNat_add_ofNat 12 (by omega)
  have head := here.left
  have rows' := here.right
  have lowest : word code (switchBase pc + 4) = .ok low.toUInt32 :=
    word_of_at (second ▸ head.left.right)
  have highest : word code (switchBase pc + 8) =
      .ok (low + Int32.ofNat rows.length - 1).toUInt32 := word_of_at (third ▸ head.right)
  have last := toInt_last nonempty inside
  rw [tableOffset, word_of_at head.left.left]
  simp only [bind, Except.bind, lowest, highest, Int32.toInt32_toUInt32]
  rw [selectRow]
  by_cases below : key < low
  · rw [if_pos (.inl below), if_pos below]
    rfl
  · have ascending := Int32.not_lt.mp below
    rw [if_neg below, sub_eq_ofNat ascending]
    have order := Int32.le_iff_toInt_le.mp ascending
    by_cases above : low + Int32.ofNat rows.length - 1 < key
    · rw [if_pos (.inr above)]
      rw [Int32.lt_iff_toInt_lt, last] at above
      rw [List.getElem?_eq_none (by omega)]
      rfl
    · rw [if_neg (not_or.mpr ⟨below, above⟩)]
      rw [Int32.lt_iff_toInt_lt, last] at above
      have within : (key.toInt - low.toInt).toNat < rows.length := by omega
      rw [List.getElem?_eq_getElem within, Option.getD_some]
      refine word_of_at ?_
      rw [show (4 : UInt32) = UInt32.ofNat 4 from rfl, ← UInt32.ofNat_mul, Nat.mul_comm,
        toNat_add_ofNat _ (by rw [fourth]; omega), fourth]
      have place := at_row rows' (List.getElem?_eq_getElem within)
      simp only [List.length_append, Bytes.length_ofWord] at place
      exact place

/-- Where a pair of a lookup switch is. -/
theorem toNat_pairPlace {base : UInt32} {index : Nat}
    (small : base.toNat + 8 + 8 * index < 4294967296) :
    (base + 8 + UInt32.ofNat index * 8).toNat = base.toNat + 8 + 8 * index := by
  have second : (base + 8).toNat = base.toNat + 8 := toNat_add_ofNat 8 (by omega)
  rw [show UInt32.ofNat index * 8 = UInt32.ofNat (8 * index) by
    rw [Nat.mul_comm, UInt32.ofNat_mul]; rfl, toNat_add_ofNat _ (by omega), second]

/-- A row of pairs is searched from a pair on. -/
theorem findPair_of_at {base : UInt32} {pairs : List (Int32 × UInt32)} (index : Nat)
    (small : base.toNat + 8 + 8 * (index + pairs.length) < 4294967296)
    (row : Bytes.At code (base.toNat + 8 + 8 * index)
      (pairs.flatMap fun pair => Bytes.ofWord pair.1.toUInt32 ++ Bytes.ofWord pair.2)) :
    findPair code base key fallback pairs.length (UInt32.ofNat index) =
      .ok (selectPair fallback pairs key) := by
  induction pairs generalizing index with
  | nil => rfl
  | cons pair pairs ih =>
      rw [List.length_cons] at small
      have entry : (base + 8 + UInt32.ofNat index * 8).toNat = base.toNat + 8 + 8 * index :=
        toNat_pairPlace (by omega)
      have behind : (base + 8 + UInt32.ofNat index * 8 + 4).toNat =
          base.toNat + 8 + 8 * index + 4 := by
        rw [show (4 : UInt32) = UInt32.ofNat 4 from rfl, toNat_add_ofNat _ (by omega), entry]
      have here := row.left
      have candidate := word_of_at (entry ▸ here.left)
      have value := word_of_at (behind ▸ here.right)
      have rest := row.right
      rw [List.length_append, Bytes.length_ofWord, Bytes.length_ofWord,
        show base.toNat + 8 + 8 * index + (4 + 4) = base.toNat + 8 + 8 * (index + 1) by omega] at rest
      have later := ih (index + 1) (by omega) rest
      rw [List.length_cons, findPair]
      simp only [bind, Except.bind, candidate, Int32.toInt32_toUInt32]
      unfold selectPair at later ⊢
      rw [List.find?_cons]
      by_cases same : pair.1 = key
      · rw [if_pos same, value]
        simp [same]
      · rw [if_neg same, ← UInt32.ofNat_one, ← UInt32.ofNat_add, later]
        simp [same]

/-- A lookup switch that was written with pairs selects among them. -/
theorem lookupOffset_of_at {pairs : List (Int32 × UInt32)}
    (small : (switchBase pc).toNat + 8 + 8 * pairs.length < 2147483648)
    (here : Bytes.At code (switchBase pc).toNat (Bytes.ofWord fallback ++
      Bytes.ofWord (UInt32.ofNat pairs.length) ++
      pairs.flatMap fun pair => Bytes.ofWord pair.1.toUInt32 ++ Bytes.ofWord pair.2)) :
    lookupOffset code pc key = .ok (selectPair fallback pairs key) := by
  have second : (switchBase pc + 4).toNat = (switchBase pc).toNat + 4 :=
    toNat_add_ofNat 4 (by omega)
  have count : word code (switchBase pc + 4) = .ok (UInt32.ofNat pairs.length) :=
    word_of_at (second ▸ here.left.right)
  have size : (UInt32.ofNat pairs.length).toInt32.toNatClampNeg = pairs.length :=
    Int32.toNatClampNeg_ofNat_of_lt (Nat.lt_of_lt_of_le (by omega : _ < 2147483648) (by decide))
  rw [lookupOffset, word_of_at here.left.left]
  simp only [bind, Except.bind, count, size]
  exact findPair_of_at 0 (by omega) here.right

end

end Bytecode

end Jvm
