import VersionRange.Proofs.Parts
import VersionRange.Proofs.Version.Bounds

/-!
# Ranges of one item

An operator in front of a partial version forms one token, and a text of just this token
is read as one group with the comparators that the item expands to.  None of them repeats
another, and simplification leaves them alone.
-/

namespace VersionRange

open Fallible

/-- The symbols that operators are written with; nothing at all means equality. -/
def ItemOperator.symbols : List (String × ItemOperator) :=
  [("", .primitive .equal), ("=", .primitive .equal), ("<", .primitive .less),
    ("<=", .primitive .lessEqual), (">", .primitive .greater), (">=", .primitive .greaterEqual),
    ("~", .tilde), ("~>", .tilde), ("^", .caret)]

theorem ItemOperator.mem_symbols {symbol : String} {op : Operator}
    (known : Operator.ofSymbol? symbol = some op) : (symbol, .primitive op) ∈ symbols := by
  unfold Operator.ofSymbol? at known
  split at known <;> cases known <;> simp [symbols]

namespace Group

section Token

variable {symbol : String} {op : ItemOperator} {operand : List Char} {w : PartialVersion.Written}

theorem isOperatorChar_of_mem_symbols (known : (symbol, op) ∈ ItemOperator.symbols) {c : Char}
    (member : c ∈ symbol.toList) : isOperatorChar c = true := by
  have all : ∀ entry ∈ ItemOperator.symbols, entry.1.toList.all isOperatorChar = true := by decide
  exact List.all_eq_true.mp (all _ known) c member

theorem exists_known_symbol (token : List Char) :
    ∃ symbol : String, (symbol, (readOperator token).1) ∈ ItemOperator.symbols ∧
      token = symbol.toList ++ (readOperator token).2 := by
  unfold readOperator
  split
  · exact ⟨"<=", by simp [ItemOperator.symbols], rfl⟩
  · exact ⟨">=", by simp [ItemOperator.symbols], rfl⟩
  · exact ⟨"<", by simp [ItemOperator.symbols], rfl⟩
  · exact ⟨">", by simp [ItemOperator.symbols], rfl⟩
  · exact ⟨"=", by simp [ItemOperator.symbols], rfl⟩
  · exact ⟨"~>", by simp [ItemOperator.symbols], rfl⟩
  · exact ⟨"~", by simp [ItemOperator.symbols], rfl⟩
  · exact ⟨"^", by simp [ItemOperator.symbols], rfl⟩
  · exact ⟨"", by simp [ItemOperator.symbols], rfl⟩

theorem readOperator_of_symbol (known : (symbol, op) ∈ ItemOperator.symbols) {c : Char}
    (plain : isOperatorChar c = false) (rest : List Char) :
    readOperator (symbol.toList ++ c :: rest) = (op, c :: rest) := by
  simp only [ItemOperator.symbols, List.mem_cons, Prod.mk.injEq, List.not_mem_nil,
    or_false] at known
  rcases known with ⟨rfl, rfl⟩ | ⟨rfl, rfl⟩ | ⟨rfl, rfl⟩ | ⟨rfl, rfl⟩ | ⟨rfl, rfl⟩ | ⟨rfl, rfl⟩ |
    ⟨rfl, rfl⟩ | ⟨rfl, rfl⟩ | ⟨rfl, rfl⟩
  · exact readOperator_of_plain plain rest
  · exact readOperator_symbol .equal plain rest
  · exact readOperator_symbol .less plain rest
  · exact readOperator_symbol .lessEqual plain rest
  · exact readOperator_symbol .greater plain rest
  · exact readOperator_symbol .greaterEqual plain rest
  · have notGreater : c ≠ '>' := by
      rintro rfl
      cases plain
    change readOperator ('~' :: c :: rest) = _
    simp [readOperator, notGreater]
  · rfl
  · rfl

theorem readOperator_item (known : (symbol, op) ∈ ItemOperator.symbols)
    (form : PartialVersion.Written.read? operand = some w) :
    readOperator (symbol.toList ++ operand) = (op, operand) := by
  obtain ⟨c, rest, rfl⟩ := List.exists_cons_of_ne_nil (PartialVersion.ne_nil_of_read? form)
  exact readOperator_of_symbol known (not_isOperatorChar_of_read? form List.mem_cons_self) rest

/-- There is one place where the operator of a token ends. -/
theorem eq_symbol_of_append {front text : List Char} (known : (symbol, op) ∈ ItemOperator.symbols)
    (form : PartialVersion.Written.read? operand = some w)
    (operators : ∀ c, front.getLast? = some c → isOperatorChar c = true)
    (plain : ∀ c ∈ text, isOperatorChar c = false)
    (same : front ++ text = symbol.toList ++ operand) : front = symbol.toList := by
  rcases List.append_eq_append_iff.mp same with ⟨more, split, rest⟩ | ⟨more, split, rest⟩
  · cases more with
    | nil => simpa using split.symm
    | cons c more =>
        have operator := isOperatorChar_of_mem_symbols known (by simp [split] : c ∈ symbol.toList)
        rw [plain c (by simp [rest])] at operator
        cases operator
  · rcases List.eq_nil_or_concat' more with rfl | ⟨more, c, rfl⟩
    · simpa using split
    · have operator := operators c (by simp [split])
      rw [not_isOperatorChar_of_read? form (by simp [rest])] at operator
      cases operator

theorem isTokenChar_item (known : (symbol, op) ∈ ItemOperator.symbols)
    (form : PartialVersion.Written.read? operand = some w) :
    ∀ c ∈ symbol.toList ++ operand, isTokenChar c = true := by
  intro c member
  rcases List.mem_append.mp member with front | behind
  · simp [isTokenChar, isOperatorChar_of_mem_symbols known front]
  · exact isTokenChar_of_read? form behind

theorem solid_item (known : (symbol, op) ∈ ItemOperator.symbols)
    (form : PartialVersion.Written.read? operand = some w) :
    Solid (symbol.toList ++ operand) := by
  have nonempty := PartialVersion.ne_nil_of_read? form
  refine solid_of_isTokenChar (by simp [nonempty]) (isTokenChar_item known form) ?_
  intro c last
  rw [List.getLast?_append_of_ne_nil _ nonempty] at last
  exact not_isOperatorChar_of_read? form (List.mem_of_getLast? last)

theorem item_ne_hyphen (form : PartialVersion.Written.read? operand = some w) :
    symbol.toList ++ operand ≠ ['-'] := by
  intro hyphen
  have nonempty := PartialVersion.ne_nil_of_read? form
  rcases List.append_eq_singleton_iff.mp hyphen with ⟨-, rfl⟩ | ⟨-, none⟩
  · cases form
  · exact nonempty none

theorem parse_item {options : ParseOptions} (known : (symbol, op) ∈ ItemOperator.symbols)
    (form : PartialVersion.Written.read? operand = some w) :
    parse options (symbol.toList ++ operand) =
      PartialVersion.parseChars operand >>= expandItem options op := by
  rw [parse_of_solid (solid_item known form) (item_ne_hyphen form), expandToken,
    readOperator_item known form]

end Token

variable (options : ParseOptions) (op : ItemOperator) (p : PartialVersion)

theorem confined_cases (first : Version) {next? : Option Version}
    (release : ∀ next, next? = some next → next.isPrerelease = false) :
    (∃ c, confined options first next? = [c]) ∨
      ∃ next, next.isPrerelease = false ∧
        confined options first next? = between options first next := by
  cases next? with
  | none => exact .inl ⟨_, rfl⟩
  | some next => exact .inr ⟨next, release next rfl, rfl⟩

/-- An item expands to one comparator, or to a lower and an upper bound. -/
theorem itemComparators_cases :
    (∃ c, itemComparators options op p = [c]) ∨
      ∃ next, next.isPrerelease = false ∧
        itemComparators options op p = between options p.first next := by
  cases op with
  | tilde => exact confined_cases options p.first fun _ => PartialVersion.isPrerelease_tildeNext?
  | caret => exact confined_cases options p.first fun _ => PartialVersion.isPrerelease_caretNext?
  | primitive op =>
      cases p with
      | any => cases op <;> exact .inl ⟨_, rfl⟩
      | full v => exact .inl ⟨_, rfl⟩
      | major m | minor m n =>
          cases op with
          | equal => exact .inr ⟨_, rfl, rfl⟩
          | less | lessEqual | greater | greaterEqual => exact .inl ⟨_, rfl⟩

theorem distinctBy_itemComparators :
    distinctBy Comparator.interchangeable (itemComparators options op p) =
      itemComparators options op p := by
  apply distinctBy_eq_self
  rcases itemComparators_cases options op p with ⟨c, single⟩ | ⟨next, -, pair⟩
  · simp [single]
  · simp [pair, between, Comparator.interchangeable]

/-- An upper bound that is a release keeps a pair of bounds from being simplified. -/
theorem simplify_itemComparators :
    ∃ record, Range.simplify [itemComparators options op p] =
      .ok (⟨[itemComparators options op p]⟩, record) := by
  rcases itemComparators_cases options op p with ⟨c, single⟩ | ⟨next, release, pair⟩
  · rw [single]
    exact Range.simplify_single c
  · rw [pair]
    refine ⟨none, Range.simplify_of_irreducible ?_⟩
    have notLowest := Version.not_sameRank_lowest_of_release release
    simp [Range.Irreducible, between, Comparator.isAllInclusive, Comparator.isAllExclusive,
      notLowest]

end Group

/-- A range text that consists of an operator and a partial version. -/
theorem Range.parse_item {symbol text : String} {op : ItemOperator}
    (known : (symbol, op) ∈ ItemOperator.symbols) {w : PartialVersion.Written}
    (form : PartialVersion.Written.read? text.toList = some w) {options : ParseOptions}
    {range : Range} (read : parse options (symbol ++ text) = .ok range) :
    ∃ p, PartialVersion.parseChars text.toList = .ok p ∧
      range = ⟨[Group.itemComparators options op p]⟩ := by
  have noBar := Group.bar_not_mem_of_isTokenChar (Group.isTokenChar_item known form)
  have single : splitGroups (symbol ++ text).toList = [symbol.toList ++ text.toList] := by
    rw [String.toList_append, splitGroups_of_no_bar noBar]
  obtain ⟨found, record, groupRead, simplified⟩ := (parse_eq_ok_iff_of_single single).mp read
  rw [Group.parse_item known form] at groupRead
  obtain ⟨p, operandRead, -, rfl⟩ :=
    Group.eq_ok_of_asking (fun _ readable => Group.asking_expandItem readable) groupRead
  obtain ⟨other, untouched⟩ := Group.simplify_itemComparators options op p
  rw [Group.distinctBy_itemComparators, untouched] at simplified
  cases simplified
  exact ⟨p, operandRead, rfl⟩

end VersionRange
