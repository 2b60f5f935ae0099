import Jvm.ClassFile.Parser

/-!
# Files that are cut short

A reader looks at bytes ahead of it and at how many there are. So one that reads a value
where more bytes follow reads the same value without them, or it finds that they are
missing. A class file that is cut short is refused for that, or it is taken for the whole
file: what is missing was skipped.
-/

namespace Jvm

open ClassFile

/-- A cursor at the same place, with more bytes at the end. -/
def Cursor.followedBy (cursor : Cursor) (more : Array UInt8) : Cursor :=
  { cursor with bytes := cursor.bytes ++ more }

/-- Whether a cursor stands in the same bytes, no further back. -/
structure Cursor.Advances (cursor after : Cursor) : Prop where
  bytes_eq : after.bytes = cursor.bytes
  offset_le : cursor.offset ≤ after.offset

theorem Cursor.Advances.refl (cursor : Cursor) : cursor.Advances cursor :=
  ⟨rfl, Nat.le_refl _⟩

theorem Cursor.Advances.trans {first second third : Cursor} (early : first.Advances second)
    (late : second.Advances third) : first.Advances third :=
  ⟨late.bytes_eq.trans early.bytes_eq, Nat.le_trans early.offset_le late.offset_le⟩

/-- Whether reading found that bytes are missing. -/
def CutShort {α : Type} (result : Except LoadError α) : Prop :=
  ∃ count offset, result = .error (.invalidFormat (.cutShort count offset))

namespace Reader

variable {α β : Type}

/-- Whether what `whole` reads with more bytes at the end, `cut` reads without them, unless
it finds that they are missing. -/
def TrimsTo (whole cut : Reader α) (cursor : Cursor) : Prop :=
  ∀ ⦃more value later⦄, whole (cursor.followedBy more) = .ok (value, later) →
    CutShort (cut cursor) ∨ ∃ after, cut cursor = .ok (value, after) ∧
      cursor.Advances after ∧ later = after.followedBy more

/-- Whether a reader reads the same without the bytes that follow, unless they are missing. -/
def Trims (read : Reader α) : Prop := ∀ cursor, TrimsTo read read cursor

namespace TrimsTo

variable {cursor : Cursor}

theorem bind {read : Reader β} {whole cut : β → Reader α} (early : TrimsTo read read cursor)
    (late : ∀ value after, read cursor = .ok (value, after) → cursor.Advances after →
      TrimsTo (whole value) (cut value) after) :
    TrimsTo (read >>= whole) (read >>= cut) cursor := by
  intro more value later ran
  cases first : read (cursor.followedBy more) with
  | error error =>
      simp only [Bind.bind, StateT.bind, Except.bind, first] at ran
      cases ran
  | ok ended =>
      obtain ⟨middle, between⟩ := ended
      simp only [Bind.bind, StateT.bind, Except.bind, first] at ran ⊢
      obtain ⟨count, offset, missing⟩ | ⟨after, same, advances, rfl⟩ := early first
      · exact .inl ⟨count, offset, by rw [missing]⟩
      · rw [same]
        obtain missing | ⟨final, ended, further, rfl⟩ := late middle after same advances ran
        · exact .inl missing
        · exact .inr ⟨final, ended, advances.trans further, rfl⟩

end TrimsTo

namespace Trims

protected theorem pure (value : α) : Trims (pure value : Reader α) := by
  intro cursor more _ later ran
  cases ran
  exact .inr ⟨cursor, rfl, .refl cursor, rfl⟩

protected theorem lift (step : Except LoadError α) : Trims (liftM step : Reader α) := by
  cases step with
  | ok value => exact Trims.pure value
  | error error =>
      intro cursor more value later ran
      cases ran

protected theorem reject (fault : FormatFault) : Trims (reject fault : Reader α) :=
  Trims.lift (.error (.invalidFormat fault))

protected theorem bind {read : Reader β} {next : β → Reader α} (early : Trims read)
    (late : ∀ value, Trims (next value)) : Trims (read >>= next) :=
  fun cursor => (early cursor).bind fun value after _ _ => late value after

/-- Reading goes on with what has been read. -/
theorem map {read : Reader β} (change : β → α) (early : Trims read) :
    Trims (do pure (change (← read))) :=
  early.bind fun value => Trims.pure (change value)

end Trims

end Reader

namespace Cursor

open Reader (Trims)

variable {α : Type}

theorem trims_take_bind (count : Nat) {next : Cursor → α}
    (local_next : ∀ cursor more, cursor.offset + count ≤ cursor.bytes.size →
      next (cursor.followedBy more) = next cursor) :
    Trims (do pure (next (← take count))) := by
  intro cursor more value later ran
  by_cases inside : cursor.offset + count ≤ cursor.bytes.size
  · have longer : cursor.offset + count ≤ (cursor.bytes ++ more).size := by
      rw [Array.size_append]
      exact Nat.le_add_right_of_le inside
    have whole : take count (cursor.followedBy more) = .ok (cursor.followedBy more, _) :=
      if_neg (Nat.not_lt.mpr longer)
    have cut : take count cursor = .ok (cursor, _) := if_neg (Nat.not_lt.mpr inside)
    simp only [bind, StateT.bind, Except.bind, whole, cut] at ran ⊢
    cases ran
    rw [local_next cursor more inside]
    exact .inr ⟨_, rfl, ⟨rfl, Nat.le_add_right _ _⟩, rfl⟩
  · have cut : take count cursor = .error _ := if_pos (Nat.lt_of_not_le inside)
    simp only [bind, StateT.bind, Except.bind, cut]
    exact .inl ⟨_, _, rfl⟩

/-- Bytes that are read are there, and reading goes on behind them. -/
theorem cursor_of_take {count : Nat} {next : Cursor → α} {cursor after : Cursor} {value : α}
    (ran : (do pure (next (← take count)) : Reader α) cursor = .ok (value, after)) :
    cursor.offset + count ≤ cursor.bytes.size ∧
      after = { cursor with offset := cursor.offset + count } := by
  by_cases inside : cursor.offset + count ≤ cursor.bytes.size
  · have taken : take count cursor = .ok (cursor, _) := if_neg (Nat.not_lt.mpr inside)
    simp only [bind, StateT.bind, Except.bind, taken] at ran
    cases ran
    exact ⟨inside, rfl⟩
  · have missing : take count cursor = .error _ := if_pos (Nat.lt_of_not_le inside)
    simp only [bind, StateT.bind, Except.bind, missing] at ran
    cases ran

/-- Bytes before the end do not change when more follow. -/
theorem byteAt_followedBy {cursor : Cursor} {more : Array UInt8} {distance : Nat}
    (inside : cursor.offset + distance < cursor.bytes.size) :
    (cursor.followedBy more).byteAt distance = cursor.byteAt distance := by
  simp only [byteAt, followedBy, Array.getD_eq_getD_getElem?,
    Array.getElem?_append_left inside]

theorem trims_byte : Trims byte :=
  trims_take_bind 1 fun _ _ _ => byteAt_followedBy (by omega)

theorem trims_short : Trims short :=
  trims_take_bind 2 fun cursor more inside => by
    rw [byteAt_followedBy (by omega), byteAt_followedBy (by omega)]

theorem trims_word : Trims word :=
  trims_take_bind 4 fun cursor more inside => by
    rw [byteAt_followedBy (by omega), byteAt_followedBy (by omega),
      byteAt_followedBy (by omega), byteAt_followedBy (by omega)]

theorem trims_longWord : Trims longWord :=
  trims_word.bind fun _ => trims_word.map _

theorem trims_bytes? (count : Nat) : Trims (bytes? count) :=
  trims_take_bind count fun cursor more inside => by
    simp only [followedBy, Array.extract_append]
    have within : cursor.offset + count - cursor.bytes.size = 0 := Nat.sub_eq_zero_of_le inside
    rw [within, Array.extract_zero, Array.append_empty]

/-- What is skipped need not be there. -/
theorem trims_skip (count : Nat) : Trims (skip count) := by
  intro cursor more value later ran
  cases ran
  exact .inr ⟨_, rfl, ⟨rfl, Nat.le_add_right _ _⟩, rfl⟩

theorem trims_many {read : Reader α} (each : Trims read) (count : Nat) :
    Trims (many count read) := by
  have go : ∀ (count : Nat) (done : Array α), Trims (many.go read count done) := by
    intro count
    induction count with
    | zero => exact fun done => Trims.pure done
    | succ count ih => exact fun done => each.bind fun next => ih (done.push next)
  exact go count #[]

theorem trims_fold {read : α → Reader α} (each : ∀ done, Trims (read done)) (count : Nat)
    (start : α) : Trims (fold count start read) := by
  have go : ∀ (count : Nat) (done : α), Trims (fold.go read count done) := by
    intro count
    induction count with
    | zero => exact fun done => Trims.pure done
    | succ count ih => exact fun done => (each done).bind fun next => ih next
  exact go count start

end Cursor

namespace ClassFile

open Cursor
open Reader (Trims TrimsTo)

variable (pool : ConstantPool)

/-! ## The parts of a class file -/

theorem trims_indexPair (make : UInt16 → UInt16 → Constant) : Trims (indexPair make) :=
  trims_short.bind fun _ => trims_short.map _

theorem trims_constant (tag : ConstantTag) (index : UInt16) : Trims (constant tag index) := by
  cases tag with
  | invalid => exact Trims.pure _
  | utf8 =>
      refine trims_short.bind fun length => (trims_bytes? _).bind fun bytes => ?_
      cases Text.decodeConstant? bytes.toList with
      | some text => exact Trims.pure _
      | none => exact Trims.reject _
  | integer | float => exact trims_word.map _
  | long | double => exact trims_longWord.map _
  | cls | string | methodType | moduleRef | packageRef => exact trims_short.map _
  | fieldRef | methodRef | interfaceMethodRef | nameAndType | dynamic | invokeDynamic =>
      exact trims_indexPair _
  | methodHandle => exact trims_byte.bind fun _ => trims_short.map _

/-- The pool is read the same with any bound on its constants that the bytes allow for: each
constant takes one of them. -/
theorem trims_constants (count : UInt16) {bound more : Nat} (index : UInt16) {cursor : Cursor}
    (enough : cursor.bytes.size < cursor.offset + bound) (larger : bound ≤ more) :
    TrimsTo (constants count (more + 1) index pool) (constants count (bound + 1) index pool)
      cursor := by
  induction bound generalizing more index pool cursor with
  | zero =>
      rw [constants, constants]
      split
      · refine (trims_byte cursor).bind fun code after ran _ => ?_
        have inside : cursor.offset + 1 ≤ cursor.bytes.size := (cursor_of_take ran).1
        omega
      · exact Trims.pure pool cursor
  | succ bound ih =>
      obtain ⟨more, rfl⟩ := Nat.exists_eq_add_of_lt (Nat.lt_of_lt_of_le bound.succ_pos larger)
      rw [Nat.zero_add] at larger ⊢
      rw [constants, constants]
      split
      · refine (trims_byte cursor).bind fun code after ran moved => ?_
        have ahead : after.offset = cursor.offset + 1 := congrArg (·.offset) (cursor_of_take ran).2
        cases ConstantTag.ofCode code with
        | none => exact Trims.reject _ after
        | some tag =>
            refine (trims_constant tag index after).bind fun next later _ further => ?_
            refine ih _ _ ?_ (Nat.le_of_succ_le_succ larger)
            have onward := further.offset_le
            rw [further.bytes_eq, moved.bytes_eq]
            omega
      · exact Trims.pure pool cursor

theorem trims_constantPool : Trims constantPool := by
  intro cursor
  refine (trims_short cursor).bind fun _ after ran _ more _ _ read => ?_
  have begun : after.offset = cursor.offset + 2 := congrArg (·.offset) (cursor_of_take ran).2
  have fewer : after.bytes.size ≤ (after.bytes ++ more).size := by
    rw [Array.size_append]
    exact Nat.le_add_right _ _
  exact trims_constants _ _ 1 (by omega) fewer read

theorem trims_textRef : Trims (textRef pool) :=
  trims_short.bind fun _ => Trims.lift _

theorem trims_classRef : Trims (classRef pool) :=
  trims_short.bind fun _ => Trims.lift _

theorem trims_attributes {α : Type} (wanted : String) (start : α) {body : α → Reader α}
    (each : ∀ found, Trims (body found)) : Trims (attributes pool wanted start body) := by
  refine trims_short.bind fun _ => trims_fold (fun found => ?_) _ _
  refine ((trims_textRef pool).bind fun _ => trims_word.map _).bind fun header => ?_
  dsimp only
  split
  · exact each found
  · exact (trims_skip _).bind fun _ => Trims.pure _

theorem trims_counted {α : Type} {read : Reader α} (each : Trims read) : Trims (counted read) :=
  trims_short.bind fun _ => trims_many each _

theorem trims_field : Trims (field pool) :=
  trims_short.bind fun _ => (trims_textRef pool).bind fun _ => (trims_textRef pool).bind fun _ =>
    (Trims.lift _).bind fun _ =>
      (trims_attributes pool _ _ fun _ => trims_short.map _).map _

theorem trims_handler : Trims handler :=
  trims_short.bind fun _ => trims_short.bind fun _ => trims_short.bind fun _ => trims_short.map _

theorem trims_lineEntry : Trims lineEntry :=
  trims_short.bind fun _ => trims_short.map _

theorem trims_code : Trims (code pool) := by
  refine trims_short.bind fun _ => trims_short.bind fun _ => trims_word.bind fun _ => ?_
  split
  · exact Trims.reject _
  · refine (trims_bytes? _).bind fun _ => trims_short.bind fun _ =>
      (trims_many trims_handler _).bind fun _ => Trims.map _ ?_
    exact trims_attributes pool _ _ fun _ =>
      trims_short.bind fun _ => (trims_many trims_lineEntry _).map _

theorem trims_method : Trims (method pool) :=
  trims_short.bind fun _ => (trims_textRef pool).bind fun _ => (trims_textRef pool).bind fun _ =>
    (Trims.lift _).bind fun _ =>
      (trims_attributes pool _ _ fun _ => (trims_code pool).map _).map _

/-- Where nothing is left, nothing is left without the bytes that follow. -/
theorem trims_end (file : ClassFile) : Trims (do
    let cursor ← get
    if cursor.available.isEmpty then pure file else reject .trailingBytes) := by
  intro cursor more value later ran
  change (if (cursor.followedBy more).available.isEmpty = true then pure file
    else reject .trailingBytes : Reader ClassFile) (cursor.followedBy more) = _ at ran
  split at ran
  next ends =>
      have passed : cursor.bytes.size ≤ cursor.offset := by
        simp only [available, followedBy, Array.isEmpty_iff, Array.extract_eq_empty_iff,
          Array.size_append, Nat.min_self] at ends
        omega
      have empty : cursor.available.isEmpty = true := by simpa [available] using passed
      cases ran
      refine .inr ⟨cursor, ?_, .refl cursor, rfl⟩
      change (if cursor.available.isEmpty = true then pure file
        else reject .trailingBytes : Reader ClassFile) cursor = _
      rw [if_pos empty]
      rfl
  next => cases ran

theorem trims_reader : Trims reader := by
  refine trims_word.bind fun magic => ?_
  split
  · exact Trims.reject _
  refine trims_short.bind fun _ => trims_short.bind fun majorVersion => ?_
  split
  · exact Trims.reject _
  refine trims_constantPool.bind fun pool => trims_short.bind fun flags =>
    (trims_classRef pool).bind fun name => trims_short.bind fun superIndex => ?_
  have rest (superclass : Option String) :=
    (trims_counted (trims_classRef pool)).bind fun interfaces =>
      (trims_counted (trims_field pool)).bind fun fields =>
        (trims_counted (trims_method pool)).bind fun methods =>
          (trims_attributes pool "SourceFile" none fun _ =>
            (trims_textRef pool).map some).bind fun sourceFile => trims_end
              { majorVersion, pool, flags, name, superclass, interfaces := interfaces.toList,
                fields, methods, sourceFile }
  dsimp only
  split
  · exact (Trims.pure none).bind rest
  · exact (Trims.lift _).bind fun named => (Trims.pure (some named)).bind rest

/-- A class file that is cut short is refused for that, or it is taken for the whole. -/
theorem parse_cut {bytes more : Array UInt8} {file : ClassFile}
    (whole : parse (bytes ++ more) = .ok file) :
    parse bytes = .ok file ∨
      ∃ count offset, parse bytes = .error (.invalidFormat (.cutShort count offset)) := by
  have starts : ({ bytes := bytes ++ more } : Cursor) = ({ bytes } : Cursor).followedBy more :=
    rfl
  rw [parse] at whole ⊢
  cases ran : reader (({ bytes } : Cursor).followedBy more) with
  | error error =>
      rw [starts, ran] at whole
      cases whole
  | ok ended =>
      rw [starts, ran] at whole
      cases whole
      obtain ⟨count, offset, missing⟩ | ⟨after, same, -⟩ := trims_reader { bytes } ran
      · exact .inr ⟨count, offset, by rw [missing]⟩
      · exact .inl (by rw [same])

/-- An attribute of three bytes is skipped, none of which is there. -/
example : (parse #[0xCA, 0xFE, 0xBA, 0xBE, 0, 0, 0, 52, 0, 4, 1, 0, 6, 0x64, 0x65, 0x6D, 0x6F,
    0x2F, 0x54, 7, 0, 1, 1, 0, 4, 0x4D, 0x61, 0x72, 0x6B, 0, 33, 0, 2, 0, 0, 0, 0, 0, 0, 0, 0,
    0, 1, 0, 3, 0, 0, 0, 3]).isOk = true := by
  decide +kernel

end ClassFile

end Jvm
