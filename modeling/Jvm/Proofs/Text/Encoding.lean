import Mathlib.Algebra.Group.Nat.Defs
import Jvm.Assembler.Pool
import Jvm.Bytes

/-!
# Texts and their encodings

The units of a text are read back as that text, and the bytes of a stored string as its units.
So the texts of two strings without unpaired surrogates are the same just if their units are.

Class files hold texts in a variant of UTF-8 that writes units one by one. A text constant is read
as standard UTF-8 if it happens to be that, and by the variant's rules otherwise. The two readings
agree where both succeed: standard UTF-8 that the variant's rules accept holds no character beyond
the basic plane, and each of its groups stands for the same unit. So the variant's bytes of any
units are read as the text of these units with unpaired surrogates replaced, whichever way is
taken, and the standard bytes that are written for a text as that text.
-/

namespace Jvm.Text

/-! ## Texts and their units -/

/-- A unit that is no surrogate stands for itself. -/
theorem charsOfUnits_plain {unit : UInt16} (high : isHighSurrogate unit = false)
    (low : isLowSurrogate unit = false) (rest : List UInt16) :
    charsOfUnits (unit :: rest) = Char.ofNat unit.toNat :: charsOfUnits rest := by
  cases rest with
  | nil => simp [charsOfUnits, high, low]
  | cons next rest => simp [charsOfUnits, high, low]

/-- Two surrogates that are partners stand for one character. -/
theorem charsOfUnits_pair {high low : UInt16} (first : isHighSurrogate high = true)
    (second : isLowSurrogate low = true) (rest : List UInt16) :
    charsOfUnits (high :: low :: rest) = pairChar high low :: charsOfUnits rest := by
  simp [charsOfUnits, first, second]

theorem isHighSurrogate_iff (unit : UInt16) :
    isHighSurrogate unit = true ↔ 0xD800 ≤ unit.toNat ∧ unit.toNat < 0xDC00 := by
  simp [isHighSurrogate, UInt16.le_iff_toNat_le, UInt16.lt_iff_toNat_lt]

theorem isLowSurrogate_iff (unit : UInt16) :
    isLowSurrogate unit = true ↔ 0xDC00 ≤ unit.toNat ∧ unit.toNat < 0xE000 := by
  simp [isLowSurrogate, UInt16.le_iff_toNat_le, UInt16.lt_iff_toNat_lt]

theorem toNat_ofNat_unit {value : Nat} (small : value < 0x10000) :
    (UInt16.ofNat value).toNat = value := by
  rw [UInt16.toNat_ofNat', Nat.mod_eq_of_lt small]

/-- A character is what its units stand for, whatever comes next. -/
theorem charsOfUnits_unitsOfChar (character : Char) (rest : List UInt16) :
    charsOfUnits (unitsOfChar character ++ rest) = character :: charsOfUnits rest := by
  have valid : character.toNat < 0xD800 ∨ 0xDFFF < character.toNat ∧ character.toNat < 0x110000 :=
    character.valid
  rw [unitsOfChar]
  split
  next basic =>
    have same := toNat_ofNat_unit basic
    refine (charsOfUnits_plain ?_ ?_ rest).trans ?_
    · rw [← Bool.not_eq_true, isHighSurrogate_iff, same]
      omega
    · rw [← Bool.not_eq_true, isLowSurrogate_iff, same]
      omega
    · rw [same, Char.ofNat_toNat]
  next beyond =>
    have high : (UInt16.ofNat (0xD800 + (character.toNat - 0x10000) / 0x400)).toNat = _ :=
      toNat_ofNat_unit (by omega)
    have low : (UInt16.ofNat (0xDC00 + (character.toNat - 0x10000) % 0x400)).toNat = _ :=
      toNat_ofNat_unit (by omega)
    refine (charsOfUnits_pair ?_ ?_ rest).trans ?_
    · rw [isHighSurrogate_iff, high]
      omega
    · rw [isLowSurrogate_iff, low]
      omega
    · have point : 0x10000 + (0xD800 + (character.toNat - 0x10000) / 0x400 - 0xD800) * 0x400 +
          (0xDC00 + (character.toNat - 0x10000) % 0x400 - 0xDC00) = character.toNat := by
        omega
      rw [pairChar, high, low, point, Char.ofNat_toNat]

/-- The units of a text are read back as that text. -/
theorem ofUnits_units (text : String) : ofUnits (units text) = text := by
  have chars : ∀ characters : List Char,
      charsOfUnits (characters.flatMap unitsOfChar) = characters := by
    intro characters
    induction characters with
    | nil => rfl
    | cons character rest ih => rw [List.flatMap_cons, charsOfUnits_unitsOfChar, ih]
  rw [ofUnits, units, chars, String.ofList_toList]

/-! ## Surrogates without a partner -/

theorem isLowSurrogate_of_high {unit : UInt16} (high : isHighSurrogate unit = true) :
    isLowSurrogate unit = false := by
  rw [isHighSurrogate_iff] at high
  rw [← Bool.not_eq_true, isLowSurrogate_iff]
  omega

theorem isHighSurrogate_of_low {unit : UInt16} (low : isLowSurrogate unit = true) :
    isHighSurrogate unit = false := by
  rw [← Bool.not_eq_true]
  exact fun high => Bool.false_ne_true ((isLowSurrogate_of_high high).symm.trans low)

theorem toNat_ofNat_char {point : Nat} (valid : point.isValidChar) :
    (Char.ofNat point).toNat = point := by
  rw [Char.ofNat, dif_pos valid]
  rfl

theorem unitsOfChar_ofNat {unit : UInt16} (high : isHighSurrogate unit = false)
    (low : isLowSurrogate unit = false) : unitsOfChar (Char.ofNat unit.toNat) = [unit] := by
  have small := unit.toNat_lt
  rw [← Bool.not_eq_true, isHighSurrogate_iff] at high
  rw [← Bool.not_eq_true, isLowSurrogate_iff] at low
  have valid : unit.toNat.isValidChar := by
    rw [Nat.isValidChar]
    omega
  rw [unitsOfChar, toNat_ofNat_char valid, if_pos (by omega), UInt16.ofNat_toNat]

theorem unitsOfChar_pairChar {high low : UInt16} (first : isHighSurrogate high = true)
    (second : isLowSurrogate low = true) : unitsOfChar (pairChar high low) = [high, low] := by
  rw [isHighSurrogate_iff] at first
  rw [isLowSurrogate_iff] at second
  generalize point : 0x10000 + (high.toNat - 0xD800) * 0x400 + (low.toNat - 0xDC00) = number
  have valid : number.isValidChar := by
    rw [Nat.isValidChar]
    omega
  have upper : 0xD800 + (number - 0x10000) / 0x400 = high.toNat := by omega
  have lower : 0xDC00 + (number - 0x10000) % 0x400 = low.toNat := by omega
  rw [unitsOfChar, pairChar, point, toNat_ofNat_char valid, if_neg (by omega), upper, lower,
    UInt16.ofNat_toNat, UInt16.ofNat_toNat]

theorem unitsOfChar_replacement : unitsOfChar replacement = [0xFFFD] := by decide

/-- A unit sequence with every surrogate replaced that has no partner beside it: after a high one
that is a low one, before a low one a high one. `afterHigh` says whether the unit before the first
one is a high surrogate. -/
def mend (afterHigh : Bool) : List UInt16 → List UInt16
  | [] => []
  | unit :: rest =>
    let alone :=
      if isHighSurrogate unit then !rest.head?.any isLowSurrogate
      else isLowSurrogate unit && !afterHigh
    (if alone then 0xFFFD else unit) :: mend (isHighSurrogate unit) rest

/-- The text of a unit sequence has the units of the sequence, but for surrogates without a
partner. -/
theorem flatMap_charsOfUnits (sequence : List UInt16) (afterHigh : Bool)
    (apart : afterHigh = true → sequence.head?.any isLowSurrogate = false) :
    (charsOfUnits sequence).flatMap unitsOfChar = mend afterHigh sequence := by
  have single {unit : UInt16} (alone : isLowSurrogate unit = true) {afterHigh : Bool}
      (head : afterHigh = true → isLowSurrogate unit = false) : afterHigh = false :=
    Bool.eq_false_iff.mpr fun high => Bool.false_ne_true ((head high).symm.trans alone)
  fun_induction charsOfUnits sequence generalizing afterHigh with
  | case1 => rfl
  | case2 unit =>
      rw [List.flatMap_cons, List.flatMap_nil, List.append_nil]
      cases high : isHighSurrogate unit
      · cases low : isLowSurrogate unit
        · simp [mend, high, low, unitsOfChar_ofNat high low]
        · simp [mend, high, low, unitsOfChar_replacement, single low (by simpa using apart)]
      · simp [mend, high, unitsOfChar_replacement]
  | case3 high low rest first second ih =>
      -- The low one is no high surrogate, so what follows the pair starts afresh.
      have notHigh := isHighSurrogate_of_low second
      rw [List.flatMap_cons, unitsOfChar_pairChar first second, ih false nofun]
      simp [mend, first, second, notHigh]
  | case4 high low rest first alone ih =>
      rw [List.flatMap_cons, unitsOfChar_replacement, ih true (fun _ => by simpa using alone)]
      simp [mend.eq_2 _ high, first, alone]
  | case5 high low rest notHigh second ih =>
      have start := single second (by simpa using apart)
      rw [List.flatMap_cons, unitsOfChar_replacement, ih false nofun]
      simp [mend.eq_2 _ high, notHigh, second, start]
  | case6 high low rest notHigh notLow ih =>
      have plain :=
        unitsOfChar_ofNat (Bool.eq_false_iff.mpr notHigh) (Bool.eq_false_iff.mpr notLow)
      rw [List.flatMap_cons, plain, ih false nofun]
      simp [mend.eq_2 _ high, notHigh, notLow]

theorem units_ofUnits (sequence : List UInt16) :
    units (ofUnits sequence) = mend false sequence := by
  rw [units, ofUnits, String.toList_ofList]
  exact flatMap_charsOfUnits sequence false nofun

/-! ## Stored strings -/

theorem unitsOfPairs_flatMap (units : List UInt16) :
    unitsOfPairs (units.flatMap unitBytes) = units := by
  induction units with
  | nil => rfl
  | cons unit rest ih =>
      change _ :: unitsOfPairs (rest.flatMap unitBytes) = _
      rw [ih, UInt8.toUInt8_toInt8, UInt8.toUInt8_toInt8, UInt16.or_comm, Bytes.join_ofShort]

/-- A character that fits a byte is one unit, which fits it as well. -/
theorem unitsOfChar_of_le {character : Char} (narrow : character.toNat ≤ 0xFF) :
    unitsOfChar character = [character.val.toUInt8.toInt8.toUInt8.toUInt16] := by
  rw [unitsOfChar, if_pos (by omega)]
  refine congrArg (fun unit => [unit]) (UInt16.toNat_inj.mp ?_)
  rw [toNat_ofNat_unit (by omega), UInt8.toUInt8_toInt8]
  change character.toNat = character.val.toNat % 256
  exact (Nat.mod_eq_of_lt (Nat.lt_succ_of_le narrow)).symm

/-- The bytes of a text are expanded to its units. -/
theorem expand_compact (text : String) :
    expand (compact text).1 (compact text).2 = units text := by
  rw [compact]
  split
  next narrow =>
    have small : ∀ character ∈ text.toList, character.toNat ≤ 0xFF := fun character member =>
      of_decide_eq_true (List.all_eq_true.mp narrow character member)
    rw [units, expand, if_pos rfl, List.map_map, List.map_eq_flatMap, List.flatMap_def,
      List.flatMap_def]
    refine congrArg List.flatten (List.map_congr_left fun character member => ?_)
    exact (unitsOfChar_of_le (small character member)).symm
  next wide => exact unitsOfPairs_flatMap _

/-! ## Groups of the variant -/

/-- The bytes of a unit: one byte for the units of ASCII but NUL, two up to eleven bits, three for
all others, surrogates among them. -/
def variantOfUnit (unit : UInt16) : List UInt8 :=
  let point := unit.toNat
  if 0 < point ∧ point < 0x80 then
    [UInt8.ofNat point]
  else if point < 0x800 then
    [UInt8.ofNat (0xC0 + point / 0x40), UInt8.ofNat (0x80 + point % 0x40)]
  else
    [UInt8.ofNat (0xE0 + point / 0x1000), UInt8.ofNat (0x80 + point / 0x40 % 0x40),
      UInt8.ofNat (0x80 + point % 0x40)]

/-- The bytes of a unit sequence in a class file. -/
def variantOfUnits (units : List UInt16) : List UInt8 := units.flatMap variantOfUnit

theorem of_single : ∀ low < 0x80, UInt8.ofNat low &&& 0x80 = 0 ∧
    (UInt8.ofNat low).toUInt16 = UInt16.ofNat low := by decide

theorem of_pairLead : ∀ high < 0x20, UInt8.ofNat (0xC0 + high) &&& 0x80 ≠ 0 ∧
    UInt8.ofNat (0xC0 + high) &&& 0xE0 = 0xC0 ∧
    (UInt8.ofNat (0xC0 + high) &&& 0x1F).toUInt16 = UInt16.ofNat high := by decide

theorem of_tripleLead : ∀ high < 0x10, UInt8.ofNat (0xE0 + high) &&& 0x80 ≠ 0 ∧
    UInt8.ofNat (0xE0 + high) &&& 0xE0 ≠ 0xC0 ∧ UInt8.ofNat (0xE0 + high) &&& 0xF0 = 0xE0 ∧
    (UInt8.ofNat (0xE0 + high) &&& 0x0F).toUInt16 = UInt16.ofNat high := by decide

theorem of_wideLead : ∀ high < 0x08, UInt8.ofNat (0xF0 + high) &&& 0x80 ≠ 0 ∧
    UInt8.ofNat (0xF0 + high) &&& 0xE0 ≠ 0xC0 ∧ UInt8.ofNat (0xF0 + high) &&& 0xF0 ≠ 0xE0 := by
  decide

theorem continuation_ofNat : ∀ low < 0x40,
    continuation (UInt8.ofNat (0x80 + low)) = UInt16.ofNat low := by decide

theorem shift_or_ofNat (width : Nat) {high low : Nat} (narrow : width < 16) (fits : low < 2 ^ width)
    (small : high * 2 ^ width + low < 0x10000) :
    UInt16.ofNat high <<< UInt16.ofNat width ||| UInt16.ofNat low =
      UInt16.ofNat (high * 2 ^ width + low) := by
  have positive := Nat.two_pow_pos width
  have le : high ≤ high * 2 ^ width := Nat.le_mul_of_pos_right _ positive
  apply UInt16.toNat_inj.mp
  rw [UInt16.toNat_or, UInt16.toNat_shiftLeft, toNat_ofNat_unit (show high < _ by omega),
    toNat_ofNat_unit (show low < _ by omega), toNat_ofNat_unit (show width < _ by omega),
    toNat_ofNat_unit small, Nat.mod_eq_of_lt narrow, Nat.shiftLeft_eq,
    Nat.mod_eq_of_lt (by omega), ← Nat.shiftLeft_eq, Nat.shiftLeft_add_eq_or_of_lt fits]

variable {high middle low : Nat}

theorem unitsOfVariant?_single (small : low < 0x80) (rest : List UInt8) :
    unitsOfVariant? (UInt8.ofNat low :: rest) =
      (unitsOfVariant? rest).map (UInt16.ofNat low :: ·) := by
  obtain ⟨lead, value⟩ := of_single low small
  rw [unitsOfVariant?.eq_def]
  simp only [if_pos lead, value]

theorem unitsOfVariant?_pair (first : high < 0x20) (second : low < 0x40) (rest : List UInt8) :
    unitsOfVariant? (UInt8.ofNat (0xC0 + high) :: UInt8.ofNat (0x80 + low) :: rest) =
      (unitsOfVariant? rest).map (UInt16.ofNat (high * 0x40 + low) :: ·) := by
  obtain ⟨notSingle, lead, value⟩ := of_pairLead high first
  have joined : UInt16.ofNat high <<< 6 ||| UInt16.ofNat low = UInt16.ofNat (high * 0x40 + low) :=
    shift_or_ofNat 6 (by decide) second (by omega)
  rw [unitsOfVariant?.eq_def]
  simp only [if_neg notSingle, if_pos lead, value, continuation_ofNat low second, joined]

theorem unitsOfVariant?_triple (first : high < 0x10) (second : middle < 0x40) (third : low < 0x40)
    (rest : List UInt8) :
    unitsOfVariant? (UInt8.ofNat (0xE0 + high) :: UInt8.ofNat (0x80 + middle) ::
        UInt8.ofNat (0x80 + low) :: rest) =
      (unitsOfVariant? rest).map (UInt16.ofNat (high * 0x1000 + middle * 0x40 + low) :: ·) := by
  obtain ⟨notSingle, notPair, lead, value⟩ := of_tripleLead high first
  have upper : UInt16.ofNat middle <<< 6 ||| UInt16.ofNat low =
      UInt16.ofNat (middle * 0x40 + low) :=
    shift_or_ofNat 6 (by decide) third (by omega)
  have joined : UInt16.ofNat high <<< 12 ||| UInt16.ofNat (middle * 0x40 + low) =
      UInt16.ofNat (high * 0x1000 + (middle * 0x40 + low)) :=
    shift_or_ofNat 12 (by decide) (by omega) (by omega)
  rw [unitsOfVariant?.eq_def]
  simp only [if_neg notSingle, if_neg notPair, if_pos lead, value, continuation_ofNat _ second,
    continuation_ofNat _ third, UInt16.or_assoc, upper, joined, Nat.add_assoc]

theorem unitsOfVariant?_wide (first : high < 0x08) (rest : List UInt8) :
    unitsOfVariant? (UInt8.ofNat (0xF0 + high) :: rest) = none := by
  obtain ⟨notSingle, notPair, notTriple⟩ := of_wideLead high first
  rw [unitsOfVariant?.eq_def]
  simp only [if_neg notSingle, if_neg notPair, if_neg notTriple]

/-! ## The two readings of a text constant -/

theorem unitsOfVariant?_variantOfUnit (unit : UInt16) (rest : List UInt8) :
    unitsOfVariant? (variantOfUnit unit ++ rest) = (unitsOfVariant? rest).map (unit :: ·) := by
  have small := unit.toNat_lt
  rw [variantOfUnit]
  split
  next single =>
    exact (unitsOfVariant?_single single.2 rest).trans (by rw [UInt16.ofNat_toNat])
  next =>
    split
    next pair =>
      refine (unitsOfVariant?_pair (by omega) (Nat.mod_lt _ (by decide)) rest).trans ?_
      rw [Nat.div_add_mod', UInt16.ofNat_toNat]
    next =>
      refine (unitsOfVariant?_triple (by omega) (Nat.mod_lt _ (by decide))
        (Nat.mod_lt _ (by decide)) rest).trans ?_
      rw [show unit.toNat / 0x1000 * 0x1000 + unit.toNat / 0x40 % 0x40 * 0x40 +
        unit.toNat % 0x40 = unit.toNat by omega, UInt16.ofNat_toNat]

/-- Bytes that encode units are read back as these units. -/
theorem unitsOfVariant?_variantOfUnits (units : List UInt16) :
    unitsOfVariant? (variantOfUnits units) = some units := by
  induction units with
  | nil => rfl
  | cons unit rest ih =>
      rw [variantOfUnits, List.flatMap_cons, unitsOfVariant?_variantOfUnit, ← variantOfUnits, ih]
      rfl

theorem unitsOfVariant?_utf8EncodeChar (character : Char) (rest : List UInt8) :
    unitsOfVariant? (String.utf8EncodeChar character ++ rest) =
      if character.toNat < 0x10000 then (unitsOfVariant? rest).map (unitsOfChar character ++ ·)
      else none := by
  have valid : character.toNat < 0xD800 ∨ 0xDFFF < character.toNat ∧ character.toNat < 0x110000 :=
    character.valid
  have same : character.val.toNat = character.toNat := rfl
  rw [String.utf8EncodeChar]
  simp only [same]
  by_cases one : character.toNat ≤ 0x7F
  · rw [if_pos one, if_pos (by omega), unitsOfChar, if_pos (by omega)]
    exact unitsOfVariant?_single (by omega) rest
  rw [if_neg one]
  by_cases two : character.toNat ≤ 0x7FF
  · rw [if_pos two, if_pos (by omega), unitsOfChar, if_pos (by omega), Nat.add_comm _ 0xC0,
      Nat.add_comm _ 0x80]
    refine (unitsOfVariant?_pair (by omega) (by omega) rest).trans ?_
    rw [show character.toNat / 64 % 32 * 0x40 + character.toNat % 64 = character.toNat by omega]
    rfl
  rw [if_neg two]
  by_cases three : character.toNat ≤ 0xFFFF
  · rw [if_pos three, if_pos (by omega), unitsOfChar, if_pos (by omega), Nat.add_comm _ 0xE0,
      Nat.add_comm _ 0x80, Nat.add_comm _ 0x80]
    refine (unitsOfVariant?_triple (by omega) (by omega) (by omega) rest).trans ?_
    rw [show character.toNat / 4096 % 16 * 0x1000 + character.toNat / 64 % 64 * 0x40 +
      character.toNat % 64 = character.toNat by omega]
    rfl
  rw [if_neg three, if_neg (by omega), Nat.add_comm _ 0xF0]
  exact unitsOfVariant?_wide (by omega) _

theorem utf8_eq_flatMap (text : String) :
    utf8 text = text.toList.flatMap String.utf8EncodeChar := by
  rw [utf8, ← String.utf8Encode_toList, List.utf8Encode, List.toList_data_toByteArray]

/-- Standard UTF-8 that reads by the rules of the variant as well reads as the units of its text. -/
theorem eq_units_of_unitsOfVariant? {text : String} {found : List UInt16}
    (read : unitsOfVariant? (utf8 text) = some found) : found = units text := by
  rw [utf8_eq_flatMap] at read
  rw [units]
  generalize text.toList = characters at read
  induction characters generalizing found with
  | nil => cases read; rfl
  | cons character rest ih =>
      rw [List.flatMap_cons, unitsOfVariant?_utf8EncodeChar] at read
      split at read
      · obtain ⟨later, remaining, rfl⟩ := Option.map_eq_some_iff.mp read
        rw [List.flatMap_cons, ih remaining]
      · cases read

theorem eq_utf8_of_fromUTF8? {bytes : List UInt8} {text : String}
    (standard : String.fromUTF8? ⟨bytes.toArray⟩ = some text) : bytes = utf8 text := by
  rw [String.fromUTF8?] at standard
  split at standard
  · cases standard
    rfl
  · cases standard

/-- The variant's bytes of units are read as the text of the units, standard UTF-8 or not. -/
theorem decodeConstant?_variantOfUnits (sequence : List UInt16) :
    decodeConstant? (variantOfUnits sequence) = some (ofUnits sequence) := by
  have lenient := unitsOfVariant?_variantOfUnits sequence
  rw [decodeConstant?]
  split
  next text standard =>
    rw [eq_utf8_of_fromUTF8? standard] at lenient
    rw [eq_units_of_unitsOfVariant? lenient, ofUnits_units]
  next => rw [lenient, Option.map_some]

theorem decodeConstant?_utf8 (text : String) : decodeConstant? (utf8 text) = some text := by
  have whole : String.fromUTF8? ⟨(utf8 text).toArray⟩ = some text := by
    rw [utf8, Array.toArray_toList]
    exact dif_pos text.isValidUTF8
  rw [decodeConstant?, whole]

/-- Text constants are read by both ways. The variant's bytes of any unit sequence are read as the
text that has these units, with the replacement character for each surrogate without a partner;
and what is written for a text, behind the two bytes of its length, is read as that text. -/
theorem text_constants_read_back :
    (∀ sequence : List UInt16, ∃ text, decodeConstant? (variantOfUnits sequence) = some text ∧
      units text = mend false sequence) ∧
    ∀ text : String,
      decodeConstant? ((Assembler.PoolBuilder.payload (.utf8 text)).drop 2) = some text := by
  constructor
  · intro sequence
    exact ⟨_, decodeConstant?_variantOfUnits sequence, units_ofUnits sequence⟩
  · intro text
    exact decodeConstant?_utf8 text

/-- NUL takes two bytes, a character beyond the basic plane six, and a lone surrogate three. -/
example : variantOfUnits [0, 0xD83D, 0xDE00, 0xD800] =
    [0xC0, 0x80, 0xED, 0xA0, 0xBD, 0xED, 0xB8, 0x80, 0xED, 0xA0, 0x80] := by decide

end Jvm.Text
