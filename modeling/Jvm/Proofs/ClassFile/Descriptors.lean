import Mathlib.Data.List.TakeWhile
import Jvm.Descriptor
import Jvm.Proofs.Effects

/-!
# The grammar of descriptors

A field type is the letter of a base type, a class name between `L` and a semicolon, or one of
these behind up to 255 brackets; a method type is field types between parentheses and a result.
Reading one item takes a word of the grammar off the front of the text, whatever comes behind it,
and takes nothing else. So what is read as a descriptor is exactly what the grammar derives, and
the readers that walk over the same text, for kinds and for descriptors, find the same items.
-/

namespace Jvm

namespace Descriptor

/-! ## The grammar -/

/-- The letters of the base types. -/
def baseTypes : List (Char × Kind) :=
  [('B', .byte), ('C', .char), ('D', .double), ('F', .float), ('I', .int), ('J', .long),
    ('S', .short), ('Z', .boolean)]

/-- Types that arrays have as elements: a base type, or a class between `L` and a semicolon. -/
inductive IsElementType : List Char → TypeItem → Prop
  | base {letter : Char} {kind : Kind} (listed : (letter, kind) ∈ baseTypes) :
      IsElementType [letter] (.primitive kind)
  | object {name : List Char} (nonempty : name ≠ []) (plain : ';' ∉ name) :
      IsElementType ('L' :: name ++ [';']) (.object (String.ofList name))

/-- Field types: an element type behind no bracket, or behind up to 255 of them. -/
inductive IsFieldType : List Char → TypeItem → Prop
  | element {text : List Char} {item : TypeItem} (type : IsElementType text item) :
      IsFieldType text item
  | array {text : List Char} {item : TypeItem} {dimensions : Nat} (nonempty : 1 ≤ dimensions)
      (bounded : dimensions ≤ 255) (type : IsElementType text item) :
      IsFieldType (List.replicate dimensions '[' ++ text)
        (.array (String.ofList (List.replicate dimensions '[' ++ text)))

/-- Field types in a row. -/
inductive AreFieldTypes : List Char → List TypeItem → Prop
  | nil : AreFieldTypes [] []
  | cons {word rest : List Char} {item : TypeItem} {items : List TypeItem}
      (first : IsFieldType word item) (others : AreFieldTypes rest items) :
      AreFieldTypes (word ++ rest) (item :: items)

/-- Result types: `V`, or a field type. -/
inductive IsResultType : List Char → Option Kind → Prop
  | void : IsResultType ['V'] none
  | value {text : List Char} {item : TypeItem} (type : IsFieldType text item) :
      IsResultType text item.kind?

/-- Method types: field types between parentheses, and a result type. -/
inductive IsMethodType : List Char → List TypeItem → Option Kind → Prop
  | intro {params result : List Char} {items : List TypeItem} {kind : Option Kind}
      (types : AreFieldTypes params items) (returned : IsResultType result kind) :
      IsMethodType ('(' :: params ++ ')' :: result) items kind

/-- The items of method types: field types and marks. -/
inductive IsItem : List Char → TypeItem → Prop
  | openParen : IsItem ['('] .openParen
  | closeParen : IsItem [')'] .closeParen
  | void : IsItem ['V'] .void
  | field {text : List Char} {item : TypeItem} (type : IsFieldType text item) : IsItem text item

end Descriptor

/-- The text of an item. -/
def TypeItem.spelling : TypeItem → List Char
  | .primitive kind => [kind.descriptorChar]
  | .object name => 'L' :: name.toList ++ [';']
  | .array descriptor => descriptor.toList
  | .void => ['V']
  | .openParen => ['(']
  | .closeParen => [')']

namespace Descriptor

variable {text word rest : List Char} {item : TypeItem} {items : List TypeItem}

theorem of_mem_baseTypes {letter : Char} {kind : Kind} (listed : (letter, kind) ∈ baseTypes) :
    letter = kind.descriptorChar ∧ kind.isReference = false := by
  have each : ∀ entry ∈ baseTypes,
      entry.1 = entry.2.descriptorChar ∧ entry.2.isReference = false := by decide
  exact each _ listed

theorem IsElementType.spelling_eq (type : IsElementType word item) : item.spelling = word := by
  cases type with
  | base listed =>
      rw [TypeItem.spelling, (of_mem_baseTypes listed).1]
  | object => rw [TypeItem.spelling, String.toList_ofList]

theorem IsFieldType.spelling_eq (type : IsFieldType word item) : item.spelling = word := by
  cases type with
  | element type => exact type.spelling_eq
  | array => rw [TypeItem.spelling, String.toList_ofList]

theorem AreFieldTypes.flatMap_spelling (types : AreFieldTypes text items) :
    items.flatMap TypeItem.spelling = text := by
  induction types with
  | nil => rfl
  | cons first _ ih => rw [List.flatMap_cons, first.spelling_eq, ih]

theorem IsFieldType.kind?_ne_none (type : IsFieldType word item) : item.kind? ≠ none := by
  cases type with
  | element type => cases type <;> nofun
  | array => nofun

theorem IsElementType.head_ne (type : IsElementType word item) (rest : List Char) :
    (word ++ rest).head? ≠ some '[' := by
  cases type with
  | base listed =>
      intro same
      cases Option.some.inj same
      simp [baseTypes] at listed
  | object => simp

/-! ## Reading one item -/

theorem splitName_eq_some_iff {chars name : List Char} :
    splitName chars = some (name, rest) ↔ ';' ∉ name ∧ chars = name ++ ';' :: rest := by
  induction chars generalizing name with
  | nil => simp [splitName]
  | cons char chars ih =>
      rw [splitName]
      split
      next semicolon =>
        subst semicolon
        cases name <;> simp +contextual [eq_comm]
      next other =>
        simp only [Option.map_eq_some_iff, Prod.exists, Prod.mk.injEq]
        cases name with
        | nil => simp [other]
        | cons head tail =>
            simp
            grind

theorem mem_baseTypes_iff {letter : Char} {kind : Kind} (notClass : letter ≠ 'L')
    (notArray : letter ≠ '[') :
    (letter, kind) ∈ baseTypes ↔ Kind.ofDescriptorChar letter = some kind := by
  constructor
  · intro listed
    rw [(of_mem_baseTypes listed).1, Kind.ofDescriptorChar_descriptorChar]
  · intro found
    unfold Kind.ofDescriptorChar at found
    split at found
    case h_9 => exact absurd rfl notClass
    case h_10 => exact absurd rfl notArray
    case h_11 => cases found
    all_goals cases found; decide

theorem readPlain_of_elementType (type : IsElementType word item) (rest : List Char) :
    readPlain (word ++ rest) = .ok (item, rest) := by
  cases type with
  | base listed =>
      obtain ⟨rfl, primitive⟩ := of_mem_baseTypes listed
      rename_i kind
      cases kind
      case reference => cases primitive
      all_goals rfl
  | object nonempty plain =>
      obtain ⟨head, tail, rfl⟩ := List.exists_cons_of_ne_nil nonempty
      have split : splitName (head :: tail ++ [';'] ++ rest) = some (head :: tail, rest) :=
        splitName_eq_some_iff.mpr ⟨plain, by simp⟩
      change readPlain ('L' :: (head :: tail ++ [';'] ++ rest)) = _
      simp only [readPlain, split]

/-- What is read off a text that starts with no bracket. -/
theorem isItem_of_readPlain (read : readPlain text = .ok (item, rest))
    (noBracket : text.head? ≠ some '[') :
    ∃ word, text = word ++ rest ∧ (IsElementType word item ∨
      IsItem word item ∧ item.kind? = none) := by
  unfold readPlain at read
  split at read
  · cases read
  · cases read
    exact ⟨['('], rfl, .inr ⟨.openParen, rfl⟩⟩
  · cases read
    exact ⟨[')'], rfl, .inr ⟨.closeParen, rfl⟩⟩
  · cases read
    exact ⟨['V'], rfl, .inr ⟨.void, rfl⟩⟩
  · split at read
    · next split =>
      cases read
      obtain ⟨plain, rfl⟩ := splitName_eq_some_iff.mp split
      exact ⟨'L' :: _ ++ [';'], by simp, .inl (.object (List.cons_ne_nil _ _) plain)⟩
    · cases read
  · next letter rest notOpen notClose notVoid notClass =>
    split at read
    · next kind found =>
      cases read
      have notArray : letter ≠ '[' := fun same => noBracket (congrArg some same)
      have listed := (mem_baseTypes_iff notClass notArray).mpr found
      exact ⟨[letter], rfl, .inl (.base listed)⟩
    · cases read


/-- A text is a row of brackets and a rest that starts with none. -/
theorem exists_brackets (text : List Char) : ∃ dimensions element,
    text = List.replicate dimensions '[' ++ element ∧ element.head? ≠ some '[' := by
  refine ⟨(text.takeWhile (· = '[')).length, text.dropWhile (· = '['), ?_, ?_⟩
  · rw [← List.eq_replicate_of_mem fun letter member =>
      by simpa using List.mem_takeWhile_imp member, List.takeWhile_append_dropWhile]
  · intro bracket
    have other := List.head?_dropWhile_not (· = '[') text
    rw [bracket] at other
    exact absurd other (by decide)

/-- Brackets are read off together with the element type behind them. -/
theorem readItem_brackets {dimensions : Nat} (nonempty : 1 ≤ dimensions)
    (noBracket : text.head? ≠ some '[') :
    readItem (List.replicate dimensions '[' ++ text) =
      if 255 < dimensions ∨ text = [] then .error ⟨text, 0⟩
      else
        match readPlain text with
        | .error stop => .error stop
        | .ok (.primitive _, rest) | .ok (.object _, rest) =>
          .ok (.array (String.ofList ((List.replicate dimensions '[' ++ text).take
            (dimensions + text.length - rest.length))), rest)
        | .ok (_, rest) => .error ⟨rest, 0⟩ := by
  have drop : (List.replicate dimensions '[' ++ text).dropWhile (· = '[') = text := by
    rw [List.dropWhile_append_of_pos fun letter member => by
      rw [List.eq_of_mem_replicate member]; rfl]
    cases text with
    | nil => rfl
    | cons letter rest =>
        refine List.dropWhile_cons_of_neg fun bracket => noBracket ?_
        rw [List.head?_cons, of_decide_eq_true bracket]
  obtain ⟨more, rfl⟩ := Nat.exists_eq_add_of_le' nonempty
  rw [readItem.eq_def]
  split
  next tail same =>
    cases element : readPlain text with
    | error stop =>
        simp only [drop, element, List.length_append, List.length_replicate,
          Nat.add_sub_cancel_right]
    | ok read =>
        obtain ⟨item, rest⟩ := read
        cases item <;> simp only [drop, element, List.length_append, List.length_replicate,
          Nat.add_sub_cancel_right]
  next other => exact absurd rfl (other _)

theorem take_brackets (dimensions : Nat) (word rest : List Char) :
    (List.replicate dimensions '[' ++ (word ++ rest)).take
      (dimensions + (word ++ rest).length - rest.length) =
        List.replicate dimensions '[' ++ word := by
  rw [← List.append_assoc]
  refine List.take_left' ?_
  simp only [List.length_append, List.length_replicate]
  omega

theorem readItem_of_isItem (type : IsItem word item) (rest : List Char) :
    readItem (word ++ rest) = .ok (item, rest) := by
  cases type with
  | openParen => rfl
  | closeParen => rfl
  | void => rfl
  | field type =>
      cases type with
      | element type =>
          have plain := readPlain_of_elementType type rest
          have head := type.head_ne rest
          rw [readItem.eq_def]
          split
          next text tail same => exact absurd (same ▸ rfl) head
          next => exact plain
      | @array element _ dimensions nonempty bounded type =>
          have plain := readPlain_of_elementType type rest
          have head := type.head_ne rest
          rw [List.append_assoc, readItem_brackets nonempty head, if_neg, plain]
          · cases type <;> simp only [take_brackets]
          · rintro (long | empty)
            · exact absurd bounded (Nat.not_le_of_lt long)
            · cases type <;> cases empty

/-- An item is read exactly if it stands at the front. -/
theorem isItem_of_readItem (read : readItem text = .ok (item, rest)) :
    ∃ word, text = word ++ rest ∧ IsItem word item := by
  obtain ⟨dimensions, element, rfl, noBracket⟩ := exists_brackets text
  rcases Nat.eq_zero_or_pos dimensions with rfl | positive
  · rw [readItem.eq_def] at read
    split at read
    next same => exact absurd (congrArg List.head? same) noBracket
    next =>
      obtain ⟨word, whole, element | mark⟩ := isItem_of_readPlain read noBracket
      · exact ⟨word, whole, .field (.element element)⟩
      · exact ⟨word, whole, mark.1⟩
  · rw [readItem_brackets positive noBracket] at read
    split at read
    · cases read
    next inside =>
      obtain ⟨bounded, nonempty⟩ := not_or.mp inside
      have array {later : List Char} {type : TypeItem} (hasKind : type.kind? ≠ none)
          (plain : readPlain element = .ok (type, later)) :
          ∃ word, List.replicate dimensions '[' ++ element = word ++ later ∧
            IsItem word (.array (String.ofList ((List.replicate dimensions '[' ++ element).take
              (dimensions + element.length - later.length)))) := by
        obtain ⟨word, rfl, type | mark⟩ := isItem_of_readPlain plain noBracket
        · rw [take_brackets, ← List.append_assoc]
          exact ⟨_, rfl, .field (.array positive (Nat.le_of_not_lt bounded) type)⟩
        · exact absurd mark.2 hasKind
      split at read
      · cases read
      · next plain => cases read; exact array (by simp [TypeItem.kind?]) plain
      · next plain => cases read; exact array (by simp [TypeItem.kind?]) plain
      · cases read


/-! ## Reading field types -/

/-- Something is accepted at the end of a descriptor only. -/
theorem map_ending_eq_ok_iff {α : Type} {whole : String} {value found : α} :
    (ending whole rest).map (fun _ => value) = .ok found ↔ rest = [] ∧ value = found := by
  cases rest with
  | nil =>
      refine ⟨fun accepted => ⟨rfl, ?_⟩, fun ⟨_, same⟩ => congrArg _ same⟩
      cases accepted
      rfl
  | cons => exact ⟨nofun, nofun⟩

/-- What has a kind among the items is a field type. -/
theorem IsItem.isFieldType (type : IsItem word item) (hasKind : item.kind? ≠ none) :
    IsFieldType word item := by
  cases type with
  | openParen => exact absurd rfl hasKind
  | closeParen => exact absurd rfl hasKind
  | void => exact absurd rfl hasKind
  | field type => exact type

theorem IsItem.ne_nil (type : IsItem word item) : word ≠ [] := by
  cases type with
  | openParen => exact List.cons_ne_nil _ _
  | closeParen => exact List.cons_ne_nil _ _
  | void => exact List.cons_ne_nil _ _
  | field type =>
      cases type with
      | element type => cases type <;> exact List.cons_ne_nil _ _
      | array _ _ type => cases type <;> simp

theorem fieldType_eq_ok_iff (whole : String) (item : TypeItem) :
    fieldType whole = .ok item ↔ IsFieldType whole.toList item := by
  rw [fieldType]
  generalize whole.toList = text
  split
  next => exact ⟨nofun, fun type => absurd rfl (IsItem.field type).ne_nil⟩
  next nonempty =>
    constructor
    · intro accepted
      split at accepted
      · cases accepted
      next found rest read =>
        obtain ⟨word, rfl, type⟩ := isItem_of_readItem read
        split at accepted
        · cases accepted
        next hasKind =>
          obtain ⟨rfl, rfl⟩ := map_ending_eq_ok_iff.mp accepted
          rw [List.append_nil]
          exact type.isFieldType fun noKind => hasKind (by rw [noKind]; rfl)
    · intro type
      have read := readItem_of_isItem (.field type) []
      rw [List.append_nil] at read
      have hasKind : ¬item.kind?.isNone := fun noKind =>
        type.kind?_ne_none (Option.isNone_iff_eq_none.mp noKind)
      simp only [read, if_neg hasKind]
      rfl

end Descriptor

namespace MethodType

open Descriptor

variable {whole : String} {text word rest : List Char} {item : TypeItem} {items : List TypeItem}
  {kinds : List Kind}

theorem params?_of_close (read : readItem text = .ok (.closeParen, rest)) :
    params? whole text = .ok ([], rest) := by
  rw [params?.eq_def]
  split
  · cases read
  · split
    next stop other => cases read.symm.trans other
    next other => cases read.symm.trans other; rfl
    next notClose other => cases read.symm.trans other; exact (notClose rfl).elim

theorem params?_of_kind {kind : Kind} (read : readItem text = .ok (item, rest))
    (hasKind : item.kind? = some kind) :
    params? whole text = (params? whole rest).map fun (kinds, rest) => (kind :: kinds, rest) := by
  rw [params?.eq_def]
  split
  · cases read
  · split
    next stop other => cases read.symm.trans other
    next other => cases read.symm.trans other; cases hasKind
    next other =>
      cases read.symm.trans other
      simp only [hasKind]
      cases params? whole rest <;> rfl

/-- What is read off a text by a list of field types. -/
theorem params?_of_areFieldTypes (types : AreFieldTypes word items)
    (same : items.map TypeItem.kind? = kinds.map some) :
    params? whole (word ++ ')' :: rest) = .ok (kinds, rest) := by
  induction types generalizing kinds with
  | nil =>
      cases List.map_eq_nil_iff.mp same.symm
      exact params?_of_close rfl
  | @cons word others item items first types ih =>
      cases kinds with
      | nil => cases same
      | cons kind kinds =>
          obtain ⟨hasKind, same⟩ := List.cons.inj same
          have read := readItem_of_isItem (.field first) (others ++ ')' :: rest)
          rw [List.append_assoc, params?_of_kind read hasKind, ih same]
          rfl

theorem areFieldTypes_of_params? (read : params? whole text = .ok (kinds, rest)) :
    ∃ word items, text = word ++ ')' :: rest ∧ AreFieldTypes word items ∧
      items.map TypeItem.kind? = kinds.map some := by
  fun_induction params? whole text generalizing kinds rest with
  | case1 => cases read
  | case2 => cases read
  | case3 head tail later readHead =>
      cases read
      obtain ⟨word, same, type⟩ := isItem_of_readItem readHead
      cases type with
      | closeParen => exact ⟨[], [], same, .nil, rfl⟩
      | field type => exact absurd rfl type.kind?_ne_none
  | case4 => cases read
  | case5 => cases read
  | case6 head tail item later notClose readHead kind hasKind others last readRest ih =>
      cases read
      obtain ⟨word, same, type⟩ := isItem_of_readItem readHead
      obtain ⟨further, items, rfl, types, kinds⟩ := ih readRest
      have first := type.isFieldType fun noKind => by cases hasKind.symm.trans noKind
      refine ⟨word ++ further, item :: items, ?_, .cons first types, ?_⟩
      · rw [same, List.append_assoc]
      · rw [List.map_cons, List.map_cons, hasKind, kinds]

theorem isResultType_of_result? {kind : Option Kind} (read : result? whole text = .ok kind) :
    IsResultType text kind := by
  unfold result? at read
  split at read
  · cases read
  · split at read
    · cases read
    next readVoid =>
      obtain ⟨word, rfl, type⟩ := isItem_of_readItem readVoid
      obtain ⟨rfl, rfl⟩ := map_ending_eq_ok_iff.mp read
      cases type with
      | void => exact .void
      | field type => exact absurd rfl type.kind?_ne_none
    next readType =>
      split at read
      · cases read
      next hasKind =>
        obtain ⟨word, rfl, type⟩ := isItem_of_readItem readType
        obtain ⟨rfl, rfl⟩ := map_ending_eq_ok_iff.mp read
        have isType := type.isFieldType fun noKind => by cases hasKind.symm.trans noKind
        rw [List.append_nil, ← hasKind]
        exact .value isType

theorem result?_of_isResultType {kind : Option Kind} (type : IsResultType text kind) :
    result? whole text = .ok kind := by
  cases type with
  | void => rfl
  | @value text item type =>
      have read := readItem_of_isItem (.field type) []
      rw [List.append_nil] at read
      rw [result?.eq_def]
      split
      · exact absurd rfl (IsItem.field type).ne_nil
      · split
        next other => cases read.symm.trans other
        next other => cases read.symm.trans other; exact absurd rfl type.kind?_ne_none
        next other =>
          cases read.symm.trans other
          split
          next noKind => exact absurd noKind type.kind?_ne_none
          next kind hasKind => rw [hasKind]; rfl

theorem itemsOf_of_readItem (read : readItem text = .ok (item, rest)) :
    itemsOf whole text = .ok item :: itemsOf whole rest := by
  rw [itemsOf.eq_def]
  split
  · cases read
  · split
    next other => cases read.symm.trans other; rfl
    next other => cases read.symm.trans other

theorem isParam_ok (hasKind : item.kind? ≠ none) : paramTypes.isParam (.ok item) = true := by
  cases item <;> first | rfl | exact absurd rfl hasKind

theorem itemsOf_of_areFieldTypes (types : AreFieldTypes word items) :
    ((itemsOf whole (word ++ ')' :: rest)).takeWhile paramTypes.isParam) = items.map .ok := by
  induction types with
  | nil => rw [List.nil_append, itemsOf_of_readItem rfl]; rfl
  | @cons word others item items first types ih =>
      have read := readItem_of_isItem (.field first) (others ++ ')' :: rest)
      rw [List.append_assoc, itemsOf_of_readItem read,
        List.takeWhile_cons_of_pos (isParam_ok first.kind?_ne_none), ih, List.map_cons]

/-! ## Method types -/

/-- A method type is read exactly if the text is one. -/
theorem parse_eq_ok_iff (whole : String) (type : MethodType) :
    parse whole = .ok type ↔ ∃ items, IsMethodType whole.toList items type.ret ∧
      items.map TypeItem.kind? = type.params.map some ∧ type.argSlots = slotCount type.params := by
  rw [parse]
  generalize whole.toList = text
  constructor
  · intro read
    split at read
    · cases read
    · split at read
      · cases read
      next rest readOpen =>
        obtain ⟨opening, rfl, isOpen⟩ := isItem_of_readItem readOpen
        obtain ⟨⟨kinds, left⟩, readParams, read⟩ := Except.bind_eq_ok.mp read
        obtain ⟨kind, readResult, read⟩ := Except.bind_eq_ok.mp read
        cases read
        obtain ⟨params, items, rfl, types, same⟩ := areFieldTypes_of_params? readParams
        cases isOpen with
        | openParen => exact ⟨items, .intro types (isResultType_of_result? readResult), same, rfl⟩
        | field type => exact absurd rfl type.kind?_ne_none
      · cases read
  · obtain ⟨kinds, kind, slots⟩ := type
    rintro ⟨items, type, same, slots⟩
    dsimp only at type same slots
    subst slots
    obtain ⟨types, returned⟩ := type
    refine Except.bind_eq_ok.mpr ⟨(kinds, _), params?_of_areFieldTypes types same, ?_⟩
    exact Except.bind_eq_ok.mpr ⟨kind, result?_of_isResultType returned, rfl⟩

theorem mapM_id_ok {ε α : Type} (values : List α) :
    (values.map fun value => (.ok value : Except ε α)).mapM id = .ok values := by
  induction values with
  | nil => rfl
  | cons value values ih =>
      rw [List.map_cons, List.mapM_cons, ih]
      rfl

/-- The descriptors of the parameters are those between the parentheses. -/
theorem paramTypes_of_isMethodType {result : Option Kind}
    (type : IsMethodType whole.toList items result) : paramTypes whole = .ok items := by
  rw [paramTypes, afterFirst]
  generalize whole.toList = text at type
  obtain ⟨types, -⟩ := type
  exact (congrArg (List.mapM id) (itemsOf_of_areFieldTypes types)).trans (mapM_id_ok items)

end MethodType

/-- Descriptors are read by their grammar. A field type is one that the grammar derives, a method
type likewise, with the kinds of its parameters in order and that of its result; and the
descriptors of its parameters are as many, of these kinds, and spell what stands between the
parentheses. -/
theorem Descriptor.descriptors_follow_grammar :
    (∀ whole item, Descriptor.fieldType whole = .ok item ↔ IsFieldType whole.toList item) ∧
    (∀ whole type, MethodType.parse whole = .ok type ↔
      ∃ items, IsMethodType whole.toList items type.ret ∧
        items.map TypeItem.kind? = type.params.map some ∧
        type.argSlots = MethodType.slotCount type.params) ∧
    ∀ whole type, MethodType.parse whole = .ok type →
      ∃ items result, MethodType.paramTypes whole = .ok items ∧
        items.map TypeItem.kind? = type.params.map some ∧
        whole.toList = '(' :: items.flatMap TypeItem.spelling ++ ')' :: result ∧
        IsResultType result type.ret := by
  refine ⟨fieldType_eq_ok_iff, MethodType.parse_eq_ok_iff, fun whole type read => ?_⟩
  obtain ⟨items, isType, kinds, -⟩ := (MethodType.parse_eq_ok_iff whole type).mp read
  have descriptors := MethodType.paramTypes_of_isMethodType isType
  generalize whole.toList = text at isType
  obtain ⟨types, returned⟩ := isType
  refine ⟨items, _, descriptors, kinds, ?_, returned⟩
  rw [types.flatMap_spelling]

/-- A class name may hold parentheses and letters of other types. -/
theorem Descriptor.descriptors_follow_grammar_parenthesis :
    MethodType.parse "(JLa);[[ZD)La;" =
      .ok ⟨[.long, .reference, .reference, .double], some .reference, 6⟩ ∧
    ∃ items result, MethodType.paramTypes "(JLa);[[ZD)La;" = .ok items ∧
      items.map TypeItem.kind? = [.long, .reference, .reference, .double].map some ∧
      "(JLa);[[ZD)La;".toList = '(' :: items.flatMap TypeItem.spelling ++ ')' :: result ∧
      IsResultType result (some .reference) := by
  have base {letter : Char} {kind : Kind} (listed : (letter, kind) ∈ baseTypes) :
      IsFieldType [letter] (.primitive kind) := .element (.base listed)
  have named : IsFieldType ('L' :: ['a', ')'] ++ [';']) (.object "a)") :=
    .element (.object (by decide) (by decide))
  have bits : IsElementType ['Z'] (.primitive .boolean) := .base (by decide)
  have array : IsFieldType (List.replicate 2 '[' ++ ['Z']) (.array "[[Z") :=
    .array (by decide) (by decide) bits
  have returned : IsResultType ('L' :: ['a'] ++ [';']) (some .reference) :=
    .value (.element (.object (by decide) (by decide)))
  have read : MethodType.parse "(JLa);[[ZD)La;" =
      .ok ⟨[.long, .reference, .reference, .double], some .reference, 6⟩ :=
    (MethodType.parse_eq_ok_iff _ _).mpr
      ⟨[.primitive .long, .object "a)", .array "[[Z", .primitive .double],
        .intro (.cons (base (by decide)) (.cons named (.cons array (.cons (base (by decide)) .nil))))
          returned, rfl, rfl⟩
  exact ⟨read, Descriptor.descriptors_follow_grammar.2.2 _ _ read⟩

end Jvm
