import Jvm.Proofs.Assembler.Labels

/-!
# Where switches read

A switch finds its operands by arithmetic modulo 2^32, and nothing ties the bounds of a
table to the bytes behind it. Here the places of operands are numbers without bound. The
pairs of a lookup switch are read where they are: the search stops at the first pair beyond
the code, before a place can wrap. The entry of a table switch is read modulo 2^32, so keys
that are 2^30 apart select the same entry.
-/

namespace Jvm

namespace Bytecode

open Assembler

/-- The four bytes at a place of code, if they are all there. -/
def wordAt? (code : Array UInt8) (place : Nat) : Option UInt32 := do
  let a ← code[place]?
  let b ← code[place + 1]?
  let c ← code[place + 2]?
  let d ← code[place + 3]?
  pure ((a.toUInt32 <<< 24) ||| (b.toUInt32 <<< 16) ||| (c.toUInt32 <<< 8) ||| d.toUInt32)

variable {code : Array UInt8} {pc : UInt32} {key : Int32}

theorem word_eq (code : Array UInt8) (pc : UInt32) :
    word code pc = (wordAt? code pc.toNat).elim (.error (.outside pc)) .ok := by
  unfold word wordAt?
  cases code[pc.toNat]? <;> cases code[pc.toNat + 1]? <;> cases code[pc.toNat + 2]? <;>
    cases code[pc.toNat + 3]? <;> rfl

theorem word_of_some {value : UInt32} (found : wordAt? code pc.toNat = some value) :
    word code pc = .ok value := by
  rw [word_eq, found]
  rfl

theorem word_of_none (beyond : wordAt? code pc.toNat = none) :
    word code pc = .error (.outside pc) := by
  rw [word_eq, beyond]
  rfl

/-- Four bytes that are all there end inside the code. -/
theorem le_size_of_wordAt? {place : Nat} {value : UInt32}
    (found : wordAt? code place = some value) : place + 4 ≤ code.size := by
  by_contra short
  have last : code[place + 3]? = none := Array.getElem?_eq_none (by omega)
  unfold wordAt? at found
  rw [last] at found
  cases first : code[place]? <;> cases second : code[place + 1]? <;>
    cases third : code[place + 2]? <;> simp [first, second, third] at found

/-- A place in 32 bits is read as it is. -/
theorem word_ofNat {place : Nat} (small : place < 4294967296) :
    word code (UInt32.ofNat place) =
      (wordAt? code place).elim (.error (.outside (UInt32.ofNat place))) .ok := by
  rw [word_eq, UInt32.toNat_ofNat_of_lt' small]

/-! ## Tables -/

/-- Whether the operands of a table switch stand at a place: the default and the bounds. -/
structure TableAt (code : Array UInt8) (base : Nat) (fallback : UInt32) (low high : Int32) :
    Prop where
  fallback : wordAt? code base = some fallback
  low : wordAt? code (base + 4) = some low.toUInt32
  high : wordAt? code (base + 8) = some high.toUInt32

/-- Where the entry of a key is in a table whose operands stand at a place. -/
def entryPlace (base : Nat) (low key : Int32) : Nat :=
  base + 12 + 4 * (key.toInt - low.toInt).toNat

section

variable {fallback : UInt32} {low high : Int32}

/-- A table switch compares the key with the bounds, and scales its distance from the lower
one in 32 bits. -/
theorem TableAt.tableOffset_eq (table : TableAt code (switchBase pc).toNat fallback low high)
    (size : code.size ≤ 4294967296) :
    tableOffset code pc key =
      if key < low ∨ high < key then .ok fallback
      else word code (UInt32.ofNat (entryPlace (switchBase pc).toNat low key)) := by
  have room := le_size_of_wordAt? table.high
  have second : (switchBase pc + 4).toNat = (switchBase pc).toNat + 4 :=
    toNat_add_ofNat 4 (by omega)
  have third : (switchBase pc + 8).toNat = (switchBase pc).toNat + 8 :=
    toNat_add_ofNat 8 (by omega)
  have lowest : word code (switchBase pc + 4) = .ok low.toUInt32 :=
    word_of_some (second ▸ table.low)
  have highest : word code (switchBase pc + 8) = .ok high.toUInt32 :=
    word_of_some (third ▸ table.high)
  rw [tableOffset, word_of_some table.fallback]
  simp only [bind, Except.bind, lowest, highest, Int32.toInt32_toUInt32]
  by_cases outside : key < low ∨ high < key
  · rw [if_pos outside, if_pos outside]
    rfl
  · have ascending : low ≤ key := Int32.not_lt.mp fun below => outside (.inl below)
    rw [if_neg outside, if_neg outside, sub_eq_ofNat ascending, entryPlace, UInt32.ofNat_add,
      UInt32.ofNat_add, UInt32.ofNat_mul, UInt32.ofNat_toNat, UInt32.mul_comm]
    rfl

/-- A key in the bounds whose entry has a place in 32 bits is read there, or the place is
said to be outside the code. -/
theorem TableAt.tableOffset_of_lt (table : TableAt code (switchBase pc).toNat fallback low high)
    (size : code.size ≤ 4294967296) (above : low ≤ key) (below : key ≤ high)
    (small : entryPlace (switchBase pc).toNat low key < 4294967296) :
    tableOffset code pc key =
      (wordAt? code (entryPlace (switchBase pc).toNat low key)).elim
        (.error (.outside (UInt32.ofNat (entryPlace (switchBase pc).toNat low key)))) .ok := by
  have within : ¬(key < low ∨ high < key) :=
    not_or.mpr ⟨Int32.not_lt.mpr above, Int32.not_lt.mpr below⟩
  rw [table.tableOffset_eq size, if_neg within, word_ofNat small]

/-- Keys in the bounds that are 2^30 apart select the same entry. -/
theorem TableAt.tableOffset_wraps (table : TableAt code (switchBase pc).toNat fallback low high)
    (size : code.size ≤ 4294967296) (above : low ≤ key) {later : Int32}
    (apart : later.toInt = key.toInt + 1073741824) (below : later ≤ high) :
    tableOffset code pc later = tableOffset code pc key := by
  rw [Int32.le_iff_toInt_le] at above below
  have within : ¬(key < low ∨ high < key) := by
    rw [Int32.lt_iff_toInt_lt, Int32.lt_iff_toInt_lt]
    omega
  have within' : ¬(later < low ∨ high < later) := by
    rw [Int32.lt_iff_toInt_lt, Int32.lt_iff_toInt_lt]
    omega
  have places : entryPlace (switchBase pc).toNat low later =
      entryPlace (switchBase pc).toNat low key + 4294967296 := by
    unfold entryPlace
    omega
  rw [table.tableOffset_eq size, table.tableOffset_eq size, if_neg within, if_neg within', places,
    UInt32.ofNat_add]
  exact congrArg (word code) (UInt32.add_zero _)

/-- An entry is read where it is exactly if its place is one of 32 bits, or no four bytes
are found at the place that is read instead. -/
theorem TableAt.reads_entry_iff (table : TableAt code (switchBase pc).toNat fallback low high)
    (size : code.size ≤ 4294967296) (above : low ≤ key) (below : key ≤ high) :
    (tableOffset code pc key).toOption = wordAt? code (entryPlace (switchBase pc).toNat low key) ↔
      entryPlace (switchBase pc).toNat low key < 4294967296 ∨
      wordAt? code (entryPlace (switchBase pc).toNat low key % 4294967296) = none := by
  have within : ¬(key < low ∨ high < key) :=
    not_or.mpr ⟨Int32.not_lt.mpr above, Int32.not_lt.mpr below⟩
  have read : (tableOffset code pc key).toOption =
      wordAt? code (entryPlace (switchBase pc).toNat low key % 4294967296) := by
    rw [table.tableOffset_eq size, if_neg within, word_eq, UInt32.toNat_ofNat']
    cases wordAt? code (entryPlace (switchBase pc).toNat low key % 2 ^ 32) <;> rfl
  rw [read]
  by_cases small : entryPlace (switchBase pc).toNat low key < 4294967296
  · simp [small, Nat.mod_eq_of_lt small]
  · have beyond : wordAt? code (entryPlace (switchBase pc).toNat low key) = none := by
      by_contra found
      obtain ⟨value, found⟩ := Option.ne_none_iff_exists'.mp found
      have room := le_size_of_wordAt? found
      omega
    simp [small, beyond]

end

/-- A table of all keys with a single entry. -/
def boundlessTable : Array UInt8 :=
  #[Opcode.tableSwitch.byte, 0, 0, 0,
    0, 0, 0, 19, 0x80, 0, 0, 0, 0x7F, 0xFF, 0xFF, 0xFF, 0, 0, 0, 22]

example : tableOffset boundlessTable 0 (-1073741824) = .ok 22 := by decide +kernel

/-! ## Pairs -/

/-- Whether the first pairs behind a place are in the code and none of them has a key. -/
def Misses (code : Array UInt8) (base : Nat) (key : Int32) (count : Nat) : Prop :=
  ∀ index < count, ∃ other, wordAt? code (base + 8 + 8 * index) = some other ∧ other.toInt32 ≠ key

/-- Pairs are missed up to one that decides: it has the key, or is not in the code. -/
theorem misses_or_exists (code : Array UInt8) (base : Nat) (key : Int32) (count : Nat) :
    Misses code base key count ∨ ∃ index < count, Misses code base key index ∧
      (wordAt? code (base + 8 + 8 * index) = none ∨
        wordAt? code (base + 8 + 8 * index) = some key.toUInt32) := by
  induction count with
  | zero => exact .inl fun _ less => absurd less (Nat.not_lt_zero _)
  | succ count ih =>
      obtain misses | ⟨index, less, decided⟩ := ih
      · cases found : wordAt? code (base + 8 + 8 * count) with
        | none => exact .inr ⟨count, Nat.lt_succ_self _, misses, .inl found⟩
        | some other =>
            by_cases same : other.toInt32 = key
            · refine .inr ⟨count, Nat.lt_succ_self _, misses, .inr ?_⟩
              rw [found, ← same, UInt32.toUInt32_toInt32]
            · refine .inl fun index less => ?_
              obtain before | rfl := Nat.lt_succ_iff_lt_or_eq.mp less
              · exact misses index before
              · exact ⟨other, found, same⟩
      · exact .inr ⟨index, Nat.lt_succ_of_lt less, decided⟩

section

variable {fallback base : UInt32}

/-- The search passes over pairs with other keys. -/
theorem findPair_of_misses (size : code.size + 4 < 4294967296) (first more : Nat)
    (misses : Misses code base.toNat key first) :
    findPair code base key fallback (first + more) 0 =
      findPair code base key fallback more (UInt32.ofNat first) := by
  induction first generalizing more with
  | zero => rw [Nat.zero_add]; rfl
  | succ first ih =>
      obtain ⟨other, found, apart⟩ := misses first (Nat.lt_succ_self _)
      have room := le_size_of_wordAt? found
      have place : (base + 8 + UInt32.ofNat first * 8).toNat = base.toNat + 8 + 8 * first :=
        toNat_pairPlace (by omega)
      rw [Nat.add_assoc, Nat.add_comm 1 more,
        ih (more + 1) fun index less => misses index (Nat.lt_succ_of_lt less), findPair]
      simp only [bind, Except.bind, word_of_some (place ▸ found)]
      rw [if_neg apart, UInt32.ofNat_add]
      rfl

/-- Behind pairs that are in the code there is room for the place of the next one. -/
theorem Misses.place_lt {base index : Nat} (misses : Misses code base key index)
    (size : code.size + 4 < 4294967296) (head : base + 8 ≤ code.size) :
    base + 8 + 8 * index < 4294967296 := by
  cases index with
  | zero => omega
  | succ index =>
      obtain ⟨other, found, -⟩ := misses index (Nat.lt_succ_self _)
      have room := le_size_of_wordAt? found
      omega

variable {pairs : UInt32}

/-- The pairs of a lookup switch are searched in order: the first one with the key is taken
if no pair before it lies beyond the code, a pair beyond the code is an error, and without
either the default is taken. -/
theorem lookupOffset_reads (size : code.size + 4 < 4294967296)
    (default : wordAt? code (switchBase pc).toNat = some fallback)
    (counted : wordAt? code ((switchBase pc).toNat + 4) = some pairs) :
    (Misses code (switchBase pc).toNat key pairs.toInt32.toNatClampNeg →
      lookupOffset code pc key = .ok fallback) ∧
    ∀ index < pairs.toInt32.toNatClampNeg, Misses code (switchBase pc).toNat key index →
      (wordAt? code ((switchBase pc).toNat + 8 + 8 * index) = some key.toUInt32 →
        lookupOffset code pc key =
          (wordAt? code ((switchBase pc).toNat + 12 + 8 * index)).elim
            (.error (.outside (UInt32.ofNat ((switchBase pc).toNat + 12 + 8 * index)))) .ok) ∧
      (wordAt? code ((switchBase pc).toNat + 8 + 8 * index) = none →
        lookupOffset code pc key =
          .error (.outside (UInt32.ofNat ((switchBase pc).toNat + 8 + 8 * index)))) := by
  have head := le_size_of_wordAt? counted
  have second : (switchBase pc + 4).toNat = (switchBase pc).toNat + 4 :=
    toNat_add_ofNat 4 (by omega)
  have count : word code (switchBase pc + 4) = .ok pairs := word_of_some (second ▸ counted)
  have searches : lookupOffset code pc key = findPair code (switchBase pc) key fallback
      pairs.toInt32.toNatClampNeg 0 := by
    rw [lookupOffset, word_of_some default]
    simp only [bind, Except.bind, count]
  rw [searches]
  refine ⟨fun misses => findPair_of_misses size _ 0 misses, fun index less misses => ?_⟩
  obtain ⟨rest, split⟩ : ∃ rest, pairs.toInt32.toNatClampNeg = index + (rest + 1) :=
    ⟨pairs.toInt32.toNatClampNeg - index - 1, by omega⟩
  have small := misses.place_lt size head
  have place := toNat_pairPlace small
  rw [split, findPair_of_misses size _ _ misses, findPair]
  refine ⟨fun found => ?_, fun beyond => ?_⟩
  · have room := le_size_of_wordAt? found
    have behind : switchBase pc + 8 + UInt32.ofNat index * 8 + 4 =
        UInt32.ofNat ((switchBase pc).toNat + 12 + 8 * index) := by
      apply UInt32.toNat_inj.mp
      rw [show (4 : UInt32) = UInt32.ofNat 4 from rfl, toNat_add_ofNat _ (by omega), place,
        UInt32.toNat_ofNat_of_lt' (by rw [UInt32.size]; omega)]
      omega
    simp only [bind, Except.bind, word_of_some (place ▸ found), Int32.toInt32_toUInt32, if_true]
    rw [behind, word_ofNat (by omega)]
  · have unread := word_of_none (place ▸ beyond)
    simp only [bind, Except.bind, unread]
    rw [← place, UInt32.ofNat_toNat]

end

end Bytecode

/-! ## Machines that switch -/

namespace Guest

/-- A jump by an offset that is read at a place goes there, or says that the place is outside
the code. -/
theorem jumpBy_elim (id : MethodId) (pc : UInt32) (read : Option UInt32) (place : UInt32)
    (machine : Machine) :
    jumpBy id pc (read.elim (.error (.outside place)) .ok) machine =
      read.elim
        (.error (.fatal (.invalidState (.pcOutsideCode place (machine.methodLabel id)))) machine)
        fun offset => .ok .next (machine.modifyExec fun exec => { exec with pc := pc + offset }) := by
  cases read <;> rfl

variable {code : Array UInt8} {pc : UInt32} {machine popped : Machine} {key : UInt32}

/-- A table switch pops a key in its bounds whose entry has a place in 32 bits. It goes to the
pc plus the entry, or fails where the entry lies beyond the code. -/
theorem execute_tableSwitch {fallback : UInt32} {low high : Int32} (reentry : Reentry)
    (id : MethodId) (next : UInt32) (size : code.size ≤ 4294967296)
    (table : Bytecode.TableAt code (Bytecode.switchBase pc).toNat fallback low high)
    (pops : fromStack Stack.pop machine = .ok key popped)
    (above : low ≤ key.toInt32) (below : key.toInt32 ≤ high)
    (small : Bytecode.entryPlace (Bytecode.switchBase pc).toNat low key.toInt32 < 4294967296) :
    execute reentry id code pc next .tableSwitch machine =
      let place := Bytecode.entryPlace (Bytecode.switchBase pc).toNat low key.toInt32
      (Bytecode.wordAt? code place).elim
        (.error (.fatal (.invalidState
          (.pcOutsideCode (UInt32.ofNat place) (popped.methodLabel id)))) popped)
        fun offset => .ok .next (popped.modifyExec fun exec => { exec with pc := pc + offset }) := by
  change (fromStack Stack.pop >>= _) machine = _
  rw [bind_of_ok pops, table.tableOffset_of_lt size above below small]
  exact jumpBy_elim id pc _ _ popped

end Guest

end Jvm
