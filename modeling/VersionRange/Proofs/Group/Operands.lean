import VersionRange.Proofs.Group.Written
import VersionRange.Proofs.Partial.Spelling

/-!
# Operands

An item is made of the tokens around its hyphen, or of one token that is an operator and
its operand.  All tokens of a group that can be read belong to its items in this way, so
there is no room in it for other characters than those of operators, of partial versions
and of the spacing.
-/

namespace VersionRange

open Fallible

namespace Group

namespace Item

/-- The tokens that an item was made of. -/
def tokens : Item → List (List Char)
  | single token => [token]
  | hyphen lower upper => [lower, ['-'], upper]
  | noLower _ => []
  | noUpper _ => []

/-- The partial versions of an item, as they are written. -/
def operands : Item → List (List Char)
  | single token => [(readOperator token).2]
  | hyphen lower upper => [lower, upper]
  | noLower _ => []
  | noUpper _ => []

end Item

theorem flatMap_tokens_itemsOf {group : List Char} {tokens : List (List Char)}
    (complete : ∀ item ∈ itemsOf group tokens, item ≠ .noLower group ∧ item ≠ .noUpper group) :
    (itemsOf group tokens).flatMap Item.tokens = tokens := by
  fun_induction itemsOf group tokens with
  | case1 => rfl
  | case2 rest => exact absurd rfl (complete _ List.mem_cons_self).1
  | case3 token notLower => exact absurd rfl (complete _ List.mem_cons_self).2
  | case4 lower upper rest notLower ih =>
      have others := ih fun item member => complete item (List.mem_cons_of_mem _ member)
      rw [List.flatMap_cons, others]
      rfl
  | case5 token rest notLower notUpper notHyphen ih =>
      have others := ih fun item member => complete item (List.mem_cons_of_mem _ member)
      rw [List.flatMap_cons, others]
      rfl

/-- The operator of a token stands in front of its operand. -/
theorem exists_symbol_append (token : List Char) :
    ∃ symbol, token = symbol ++ (readOperator token).2 ∧ symbol.all isOperatorChar = true := by
  unfold readOperator
  split
  · exact ⟨['<', '='], rfl, rfl⟩
  · exact ⟨['>', '='], rfl, rfl⟩
  · exact ⟨['<'], rfl, rfl⟩
  · exact ⟨['>'], rfl, rfl⟩
  · exact ⟨['='], rfl, rfl⟩
  · exact ⟨['~', '>'], rfl, rfl⟩
  · exact ⟨['~'], rfl, rfl⟩
  · exact ⟨['^'], rfl, rfl⟩
  · exact ⟨[], rfl, rfl⟩

theorem isTokenChar_of_read? {operand : List Char} {w : PartialVersion.Written}
    (form : PartialVersion.Written.read? operand = some w) {c : Char} (member : c ∈ operand) :
    isTokenChar c = true := by
  rcases PartialVersion.mem_of_read? form member with allowed | rfl
  · simp [isTokenChar, allowed]
  · decide

theorem not_isOperatorChar_of_read? {operand : List Char} {w : PartialVersion.Written}
    (form : PartialVersion.Written.read? operand = some w) {c : Char} (member : c ∈ operand) :
    isOperatorChar c = false := by
  rcases PartialVersion.mem_of_read? form member with allowed | rfl
  · exact not_isOperatorChar_of_isVersionChar allowed
  · decide

theorem isTokenChar_of_operand {operand : List Char} {p : PartialVersion}
    (read : PartialVersion.parseChars operand = .ok p) {c : Char} (member : c ∈ operand) :
    isTokenChar c = true := by
  obtain ⟨w, form⟩ := PartialVersion.exists_read?_of_parseChars read
  exact isTokenChar_of_read? form member

theorem isTokenChar_of_expand {options : ParseOptions} {item : Item} {found : List Comparator}
    (expands : item.expand options = .ok found) {token : List Char}
    (among : token ∈ item.tokens) {c : Char} (member : c ∈ token) : isTokenChar c = true := by
  rcases Item.expand_cases expands with
    ⟨whole, p, rfl, read, -⟩ | ⟨lower, upper, low, high, rfl, lowRead, highRead, -⟩
  · rw [Item.tokens, List.mem_singleton] at among
    subst among
    obtain ⟨symbol, split, operator⟩ := exists_symbol_append token
    rw [split] at member
    rcases List.mem_append.mp member with front | behind
    · simp [isTokenChar, List.all_eq_true.mp operator c front]
    · exact isTokenChar_of_operand read behind
  · simp only [Item.tokens, List.mem_cons, List.not_mem_nil, or_false] at among
    rcases among with rfl | rfl | rfl
    · exact isTokenChar_of_operand lowRead member
    · rw [List.mem_singleton] at member
      subst member
      decide
    · exact isTokenChar_of_operand highRead member

theorem complete_of_expand {options : ParseOptions} {items : List Item}
    (expands : ∀ item ∈ items, ∃ found, item.expand options = .ok found) (group : List Char) :
    ∀ item ∈ items, item ≠ .noLower group ∧ item ≠ .noUpper group := by
  intro item among
  obtain ⟨found, expansion⟩ := expands item among
  constructor <;> rintro rfl <;> cases expansion

/-- Each token of a group that is read belongs to an item that expands. -/
theorem exists_item_of_token {options : ParseOptions} {group : List Char}
    {found : List Comparator} (read : parse options group = .ok found)
    (notBlank : ¬allBlank group = true) {token : List Char} (among : token ∈ tokens group) :
    ∃ item comparators, token ∈ item.tokens ∧ Item.expand options item = .ok comparators := by
  have each := expands_of_parse read notBlank
  rw [← flatMap_tokens_itemsOf (complete_of_expand each group), List.mem_flatMap] at among
  obtain ⟨item, itemAmong, ofItem⟩ := among
  obtain ⟨comparators, expansion⟩ := each item itemAmong
  exact ⟨item, comparators, ofItem, expansion⟩

theorem isTokenChar_of_parse {options : ParseOptions} {group : List Char}
    {found : List Comparator} (read : parse options group = .ok found) {c : Char}
    (member : c ∈ group) (solid : isBlank c = false) (notComma : c ≠ ',') :
    isTokenChar c = true := by
  have notBlank : ¬allBlank group = true := fun all => by
    rw [mem_allBlank all member] at solid
    cases solid
  obtain ⟨token, among, inside⟩ := exists_token_of_mem member solid notComma
  obtain ⟨item, comparators, ofItem, expansion⟩ := exists_item_of_token read notBlank among
  exact isTokenChar_of_expand expansion ofItem inside

theorem bar_not_mem_of_parse {options : ParseOptions} {group : List Char}
    {found : List Comparator} (read : parse options group = .ok found) : '|' ∉ group := by
  intro member
  have allowed := isTokenChar_of_parse read member (by decide) (by decide)
  revert allowed
  decide

end Group

end VersionRange
