import VersionRange.Proofs.Group.Expansion
import VersionRange.Proofs.Group.Tokens

/-!
# The items of a group

The tokens of a group fall into items: single tokens, pairs of tokens around a hyphen,
and a hyphen that lacks a token at either side.  A group expands item by item, so it
fails with the fault of its first item that does not expand.
-/

namespace VersionRange

open Fallible

namespace Group

inductive Item
  | single (token : List Char)
  | hyphen (lower upper : List Char)
  | noLower (group : List Char)
  | noUpper (group : List Char)
  deriving DecidableEq, Repr

/-- The items that tokens fall into; nothing is looked at behind a lacking token. -/
def itemsOf (group : List Char) : List (List Char) → List Item
  | [] => []
  | ['-'] :: _ => [.noLower group]
  | _ :: ['-'] :: [] => [.noUpper group]
  | lower :: ['-'] :: upper :: rest => .hyphen lower upper :: itemsOf group rest
  | token :: rest => .single token :: itemsOf group rest

namespace Item

def expand (options : ParseOptions) : Item → Except Fault (List Comparator)
  | single token => expandToken options token
  | hyphen lower upper => do
    let lower ← PartialVersion.parseChars lower
    let upper ← PartialVersion.parseChars upper
    expandHyphen options lower upper
  | noLower group => .error (.range (.hyphenWithoutLower (String.ofList group)))
  | noUpper group => .error (.range (.hyphenWithoutUpper (String.ofList group)))

end Item

theorem expandTokens_eq (options : ParseOptions) (group : List Char) (tokens : List (List Char)) :
    expandTokens options group tokens =
      ((itemsOf group tokens).mapM (Item.expand options)).map List.flatten := by
  fun_induction itemsOf group tokens with
  | case1 => rfl
  | case2 => rfl
  | case3 token notLower =>
      rw [expandTokens]
      · rfl
      · exact notLower
  | case4 lower upper rest notLower ih =>
      rw [flatten_mapM_cons, ← ih, expandTokens]
      · simp [Item.expand]
      · exact notLower
  | case5 token rest notLower notUpper notHyphen ih =>
      rw [flatten_mapM_cons, ← ih, expandTokens]
      · rfl
      all_goals assumption

/-- A number of the operand is too long to be read, or the operand asks for a release
with a number that is too large to be written. -/
def TooLarge (asks : PartialVersion → Option Version) (operand : List Char) : Prop :=
  PartialVersion.Overlong operand ∨
    ∃ p, PartialVersion.parseChars operand = .ok p ∧ ∃ next ∈ asks p, ¬next.Readable

section Operand

variable {asks : PartialVersion → Option Version} {comparators : PartialVersion → List Comparator}
  {expand : PartialVersion → Except Fault (List Comparator)} {operand : List Char}

theorem eq_ok_of_asking (asking : ∀ p, p.Readable → Asking (asks p) (comparators p) (expand p))
    {found : List Comparator}
    (succeeds : PartialVersion.parseChars operand >>= expand = .ok found) :
    ∃ p, PartialVersion.parseChars operand = .ok p ∧ (∀ next ∈ asks p, next.Readable) ∧
      found = comparators p := by
  obtain ⟨p, read, whole⟩ := bind_eq_ok_iff.mp succeeds
  have outcome := asking p (PartialVersion.readable_of_parseChars read)
  rw [whole] at outcome
  cases outcome with
  | granted fits => exact ⟨p, read, fits, rfl⟩

theorem fault_of_asking (asking : ∀ p, p.Readable → Asking (asks p) (comparators p) (expand p))
    {fault : Fault} (fails : PartialVersion.parseChars operand >>= expand = .error fault) :
    (∃ cause, fault = .range cause) ∨ ∃ cause, fault = .numeral cause := by
  rcases bind_eq_error_iff.mp fails with refused | ⟨p, read, whole⟩
  · exact PartialVersion.fault_of_parseChars refused
  · have outcome := asking p (PartialVersion.readable_of_parseChars read)
    rw [whole] at outcome
    cases outcome with
    | refused asked unreadable => exact .inr ⟨_, rfl⟩

theorem numeral_iff_of_asking
    (asking : ∀ p, p.Readable → Asking (asks p) (comparators p) (expand p)) :
    (∃ cause, PartialVersion.parseChars operand >>= expand = .error (.numeral cause)) ↔
      TooLarge asks operand := by
  unfold TooLarge
  rw [← PartialVersion.parseChars_numeral_iff]
  cases read : PartialVersion.parseChars operand with
  | error fault => simp
  | ok p =>
      have outcome := asking p (PartialVersion.readable_of_parseChars read)
      simp only [ok_bind, reduceCtorEq, exists_false, false_or, Except.ok.injEq, exists_eq_left']
      generalize expand p = whole at outcome
      cases outcome with
      | granted fits => simpa using fits
      | refused asked unreadable => simpa using ⟨_, asked, unreadable⟩

end Operand

namespace Item

/-- A number in the item is too long or too large.  What stands behind a hyphen counts
only if what stands in front of it can be read. -/
def Overlong : Item → Prop
  | single token => TooLarge (itemNext? (readOperator token).1) (readOperator token).2
  | hyphen lower upper =>
    PartialVersion.Overlong lower ∨
      (∃ p, PartialVersion.parseChars lower = .ok p) ∧ TooLarge PartialVersion.next? upper
  | noLower _ => False
  | noUpper _ => False

variable {options : ParseOptions} {item : Item}

/-- What an item has expanded to, told from the partial versions that it holds. -/
theorem expand_cases {found : List Comparator} (expands : item.expand options = .ok found) :
    (∃ token p, item = .single token ∧
      PartialVersion.parseChars (readOperator token).2 = .ok p ∧
      (∀ next ∈ itemNext? (readOperator token).1 p, next.Readable) ∧
      found = itemComparators options (readOperator token).1 p) ∨
    ∃ lower upper low high, item = .hyphen lower upper ∧
      PartialVersion.parseChars lower = .ok low ∧ PartialVersion.parseChars upper = .ok high ∧
      (∀ next ∈ high.next?, next.Readable) ∧ found = hyphenComparators options low high := by
  cases item with
  | single token =>
      obtain ⟨p, read, fits, same⟩ :=
        eq_ok_of_asking (fun _ readable => asking_expandItem readable) expands
      exact .inl ⟨token, p, rfl, read, fits, same⟩
  | hyphen lower upper =>
      obtain ⟨low, lowRead, rest⟩ := bind_eq_ok_iff.mp expands
      have lowReadable := PartialVersion.readable_of_parseChars lowRead
      obtain ⟨high, highRead, fits, same⟩ :=
        eq_ok_of_asking (fun _ _ => asking_expandHyphen lowReadable) rest
      exact .inr ⟨lower, upper, low, high, rfl, lowRead, highRead, fits, same⟩
  | noLower group => cases expands
  | noUpper group => cases expands

theorem ne_nil_and_stamped_of_expand {found : List Comparator}
    (expands : item.expand options = .ok found) :
    found ≠ [] ∧ ∀ c ∈ found, c.Stamped options := by
  rcases expand_cases expands with
    ⟨token, p, -, read, fits, rfl⟩ | ⟨lower, upper, low, high, -, lowRead, highRead, fits, rfl⟩
  · have first := PartialVersion.readable_first (PartialVersion.readable_of_parseChars read)
    refine ⟨itemComparators_ne_nil, fun c member => ?_⟩
    exact (bounded_itemComparators c member).stamped first fits
  · have lowFirst := PartialVersion.readable_first (PartialVersion.readable_of_parseChars lowRead)
    have highFirst := PartialVersion.readable_first (PartialVersion.readable_of_parseChars highRead)
    refine ⟨hyphenComparators_ne_nil, fun c member => ?_⟩
    rcases bounded_hyphenComparators c member with lowerBound | upperBound
    · exact lowerBound.stamped lowFirst (by simp)
    · exact upperBound.stamped highFirst fits

theorem fault_of_expand {fault : Fault} (fails : item.expand options = .error fault) :
    (∃ cause, fault = .range cause) ∨ ∃ cause, fault = .numeral cause := by
  cases item with
  | single token => exact fault_of_asking (fun _ readable => asking_expandItem readable) fails
  | hyphen lower upper =>
      rcases bind_eq_error_iff.mp fails with refused | ⟨low, lowRead, rest⟩
      · exact PartialVersion.fault_of_parseChars refused
      · have lowReadable := PartialVersion.readable_of_parseChars lowRead
        exact fault_of_asking (fun _ _ => asking_expandHyphen lowReadable) rest
  | noLower group | noUpper group =>
      cases fails
      exact .inl ⟨_, rfl⟩

/-- An item fails for its numbers exactly when one of them is too long or too large. -/
theorem expand_numeral_iff :
    (∃ cause, item.expand options = .error (.numeral cause)) ↔ item.Overlong := by
  cases item with
  | single token => exact numeral_iff_of_asking fun _ readable => asking_expandItem readable
  | hyphen lower upper =>
      simp only [expand, Overlong, ← PartialVersion.parseChars_numeral_iff]
      cases lowRead : PartialVersion.parseChars lower with
      | error fault => simp
      | ok low =>
          have lowReadable := PartialVersion.readable_of_parseChars lowRead
          rw [ok_bind, numeral_iff_of_asking fun _ _ => asking_expandHyphen lowReadable]
          simp
  | noLower group | noUpper group => simp [expand, Overlong]

/-- Items fail for their numbers exactly when one with such a number stands first among
those that do not expand. -/
theorem mapM_expand_numeral_iff {items : List Item} :
    (∃ cause, items.mapM (expand options) = .error (.numeral cause)) ↔
      Preceded Overlong (fun item => ∃ found, item.expand options = .ok found) items := by
  constructor
  · rintro ⟨cause, fails⟩
    obtain ⟨before, item, after, split, refused, earlier⟩ := mapM_eq_error_iff.mp fails
    exact ⟨before, item, after, split, expand_numeral_iff.mp ⟨cause, refused⟩, earlier⟩
  · rintro ⟨before, item, after, split, overlong, earlier⟩
    obtain ⟨cause, refused⟩ := expand_numeral_iff.mpr overlong
    exact ⟨cause, mapM_eq_error_iff.mpr ⟨before, item, after, split, refused, earlier⟩⟩

end Item

/-- The items of a group; a blank group has none. -/
def items (group : List Char) : List Item :=
  if allBlank group then [] else itemsOf group (tokens group)

theorem parse_of_blank {options : ParseOptions} {group : List Char}
    (blank : allBlank group = true) : parse options group = .ok [.any options] := by
  rw [parse, if_pos blank]

theorem parse_of_not_blank {options : ParseOptions} {group : List Char}
    (notBlank : ¬allBlank group = true) :
    parse options group = ((items group).mapM (Item.expand options)).map List.flatten := by
  rw [parse, if_neg notBlank, tokens_trimBlanks, expandTokens_eq, items, if_neg notBlank]

theorem parse_eq_error_iff {options : ParseOptions} {group : List Char} {fault : Fault} :
    parse options group = .error fault ↔
      (items group).mapM (Item.expand options) = .error fault := by
  by_cases blank : allBlank group = true
  · simp [parse_of_blank blank, items, blank]
  · rw [parse_of_not_blank blank, map_eq_error_iff]

theorem parse_eq_ok_iff_of_not_blank {options : ParseOptions} {group : List Char}
    (notBlank : ¬allBlank group = true) {found : List Comparator} :
    parse options group = .ok found ↔
      ∃ expansions, (itemsOf group (tokens group)).mapM (Item.expand options) = .ok expansions ∧
        expansions.flatten = found := by
  rw [parse_of_not_blank notBlank, items, if_neg notBlank, map_eq_ok_iff]

theorem expands_of_parse {options : ParseOptions} {group : List Char} {found : List Comparator}
    (read : parse options group = .ok found) (notBlank : ¬allBlank group = true) :
    ∀ item ∈ itemsOf group (tokens group), ∃ expansion, item.expand options = .ok expansion := by
  obtain ⟨expansions, expands, -⟩ := (parse_eq_ok_iff_of_not_blank notBlank).mp read
  exact mapM_succeeds_iff.mp ⟨expansions, expands⟩

theorem stamped_of_parse {options : ParseOptions} {group : List Char} {found : List Comparator}
    (read : parse options group = .ok found) : ∀ c ∈ found, c.Stamped options := by
  by_cases blank : allBlank group = true
  · rw [parse_of_blank blank] at read
    cases read
    simp [Comparator.Stamped]
  · rw [parse_of_not_blank blank, map_eq_ok_iff] at read
    obtain ⟨expansions, expands, rfl⟩ := read
    intro c member
    obtain ⟨expansion, among, inside⟩ := List.mem_flatten.mp member
    obtain ⟨item, -, expansionOf⟩ := exists_item_of_mapM expands among
    exact (Item.ne_nil_and_stamped_of_expand expansionOf).2 c inside

theorem itemsOf_eq_nil_iff {group : List Char} {tokens : List (List Char)} :
    itemsOf group tokens = [] ↔ tokens = [] := by
  fun_cases itemsOf group tokens <;> simp

/-- A group has no comparators only if it has no items, which are then no more than
blanks and at least one comma. -/
theorem parse_eq_ok_nil_iff {options : ParseOptions} {group : List Char} :
    parse options group = .ok [] ↔
      allBlank group = false ∧ ∀ c ∈ group, isBlank c = true ∨ c = ',' := by
  by_cases blank : allBlank group = true
  · simp [parse_of_blank blank, blank]
  · have empty : items group = [] ↔ ∀ c ∈ group, isBlank c = true ∨ c = ',' := by
      rw [items, if_neg blank, itemsOf_eq_nil_iff, tokens_eq_nil_iff]
    rw [parse_of_not_blank blank, map_eq_ok_iff, ← empty]
    constructor
    · rintro ⟨expansions, expands, none⟩
      refine ⟨by simpa using blank, ?_⟩
      generalize items group = found at expands
      cases mapM_eq_ok_iff.mp expands with
      | nil => rfl
      | cons head tail =>
          rw [List.flatten_cons, List.append_eq_nil_iff] at none
          exact absurd none.1 (Item.ne_nil_and_stamped_of_expand head).1
    · rintro ⟨-, noItem⟩
      rw [noItem]
      exact ⟨[], rfl, rfl⟩

end Group

end VersionRange
