import VersionRange.Proofs.Group.Items
import VersionRange.Proofs.Group.Tokens
import VersionRange.Range

/-!
# Reading written groups

A comparator with a readable target is written as one token that holds neither blanks,
commas nor bars and does not end in an operator.  So the written form of a group falls
into just these tokens again, none of them is a hyphen, and each expands to the
comparator that it was written for.
-/

namespace VersionRange

open Fallible

theorem not_isBlank_of_isVersionChar {c : Char} (allowed : isVersionChar c = true) :
    isBlank c = false := by
  simp only [isVersionChar, Bool.or_eq_true, decide_eq_true_eq] at allowed
  rcases allowed with ((alphanum | rfl) | rfl) | rfl
  · have range := toNat_of_isAlphanum alphanum
    simp only [isBlank, inRanges, blankRanges, List.any_cons, List.any_nil, Bool.or_false,
      Bool.or_eq_false_iff, Bool.and_eq_false_iff, decide_eq_false_iff_not]
    omega
  all_goals decide

namespace Group

theorem not_isOperatorChar_of_isVersionChar {c : Char} (allowed : isVersionChar c = true) :
    isOperatorChar c = false := by
  by_contra operator
  simp only [isOperatorChar, Bool.not_eq_false, Bool.or_eq_true, decide_eq_true_eq] at operator
  rcases operator with (((rfl | rfl) | rfl) | rfl) | rfl <;> revert allowed <;> decide

/-- The characters that tokens are written with. -/
def isTokenChar (c : Char) : Bool :=
  isOperatorChar c || c = '*' || isVersionChar c

theorem not_isBlank_of_isTokenChar {c : Char} (allowed : isTokenChar c = true) :
    isBlank c = false := by
  simp only [isTokenChar, Bool.or_eq_true, decide_eq_true_eq] at allowed
  rcases allowed with (operator | rfl) | version
  · by_contra blank
    rw [not_isOperatorChar_of_isBlank (by simpa using blank)] at operator
    cases operator
  · decide
  · exact not_isBlank_of_isVersionChar version

theorem solid_of_isTokenChar {token : List Char} (nonempty : token ≠ [])
    (allowed : ∀ c ∈ token, isTokenChar c = true)
    (closed : ∀ c, token.getLast? = some c → isOperatorChar c = false) : Solid token where
  nonempty := nonempty
  plain := by
    intro c member
    refine ⟨not_isBlank_of_isTokenChar (allowed c member), ?_⟩
    rintro rfl
    exact absurd (allowed _ member) (by decide)
  closed := closed

theorem bar_not_mem_of_isTokenChar {token : List Char}
    (allowed : ∀ c ∈ token, isTokenChar c = true) : '|' ∉ token :=
  fun member => absurd (allowed _ member) (by decide)

theorem readOperator_of_plain {c : Char} (plain : isOperatorChar c = false) (rest : List Char) :
    readOperator (c :: rest) = (.primitive .equal, c :: rest) := by
  simp only [isOperatorChar, Bool.or_eq_false_iff, decide_eq_false_iff_not] at plain
  simp [readOperator, plain]

theorem readOperator_symbol (op : Operator) {c : Char} (plain : isOperatorChar c = false)
    (rest : List Char) :
    readOperator (op.symbol.toList ++ c :: rest) = (.primitive op, c :: rest) := by
  simp only [isOperatorChar, Bool.or_eq_false_iff, decide_eq_false_iff_not] at plain
  cases op with
  | less =>
      change readOperator ('<' :: c :: rest) = _
      simp [readOperator, plain]
  | lessEqual => rfl
  | greater =>
      change readOperator ('>' :: c :: rest) = _
      simp [readOperator, plain]
  | greaterEqual => rfl
  | equal => rfl

end Group

namespace Comparator

variable {options : ParseOptions}

theorem toList_text_any (own : ParseOptions) : (any own).text.toList = ['*'] := by
  simp [text]

theorem toList_text_exact (op : Operator) (target : Version) (own : ParseOptions) :
    (exact op target own).text.toList = op.symbol.toList ++ target.chars := by
  simp [text]

theorem isTokenChar_of_mem_text {c : Comparator} (stamped : c.Stamped options) {character : Char}
    (member : character ∈ c.text.toList) : Group.isTokenChar character = true := by
  cases c with
  | any own =>
      rw [toList_text_any, List.mem_singleton] at member
      subst member
      decide
  | exact op target own =>
      rw [toList_text_exact, List.mem_append] at member
      rcases member with symbol | version
      · have symbols : op.symbol.toList.all Group.isTokenChar = true := by cases op <;> rfl
        exact List.all_eq_true.mp symbols character symbol
      · simp [Group.isTokenChar, Version.isVersionChar_of_mem_chars stamped.1 version]

theorem solid_text {c : Comparator} (stamped : c.Stamped options) :
    Group.Solid c.text.toList := by
  refine Group.solid_of_isTokenChar ?_ (fun _ => isTokenChar_of_mem_text stamped) ?_
  · cases c with
    | any own => simp [toList_text_any]
    | exact op target own => simp [toList_text_exact, Version.chars_ne_nil]
  · intro character last
    cases c with
    | any own =>
        rw [toList_text_any] at last
        cases last
        decide
    | exact op target own =>
        rw [toList_text_exact,
          List.getLast?_append_of_ne_nil _ (Version.chars_ne_nil target)] at last
        exact Group.not_isOperatorChar_of_isVersionChar
          (Version.isVersionChar_of_mem_chars stamped.1 (List.mem_of_getLast? last))

theorem bar_not_mem_text {c : Comparator} (stamped : c.Stamped options) :
    '|' ∉ c.text.toList :=
  Group.bar_not_mem_of_isTokenChar fun _ => isTokenChar_of_mem_text stamped

/-- A written comparator is an operator in front of a full version, or a wildcard. -/
theorem expandToken_text {c : Comparator} (stamped : c.Stamped options) :
    Group.expandToken options c.text.toList = .ok [c] := by
  cases c with
  | any own =>
      cases stamped
      rw [toList_text_any]
      rfl
  | exact op target own =>
      obtain ⟨readable, rfl⟩ := stamped
      obtain ⟨c, rest, chars⟩ := List.exists_cons_of_ne_nil (Version.chars_ne_nil target)
      have allowed := Version.isVersionChar_of_mem_chars readable (chars ▸ List.mem_cons_self)
      have plain := Group.not_isOperatorChar_of_isVersionChar allowed
      rw [toList_text_exact, Group.expandToken, chars, Group.readOperator_symbol op plain,
        ← chars]
      simp only [PartialVersion.parseChars_chars readable]
      rfl

theorem text_ne_hyphen (c : Comparator) : c.text.toList ≠ ['-'] := by
  intro hyphen
  cases c with
  | any own =>
      rw [toList_text_any] at hyphen
      cases hyphen
  | exact op target own =>
      rw [toList_text_exact] at hyphen
      cases op <;> cases hyphen

end Comparator

namespace Group

theorem itemsOf_eq_map {group : List Char} {tokens : List (List Char)}
    (noHyphen : ∀ token ∈ tokens, token ≠ ['-']) :
    itemsOf group tokens = tokens.map .single := by
  induction tokens with
  | nil => rfl
  | cons token rest ih =>
      obtain ⟨first, others⟩ := List.forall_mem_cons.mp noHyphen
      rw [itemsOf, ih others, List.map_cons]
      · exact first
      · intro last
        exact others ['-'] (by simp [last]) rfl
      · intro _ _ last
        exact others ['-'] (by simp [last]) rfl

section Alone

variable {options : ParseOptions} {token : List Char}

/-- A token that stands alone is the only item of its group. -/
theorem items_of_solid (solid : Solid token) (notHyphen : token ≠ ['-']) :
    items token = [.single token] := by
  have notBlank : ¬allBlank token = true :=
    not_blank_of_tokens_ne_nil (by simp [tokens_of_solid solid])
  rw [items, if_neg notBlank, tokens_of_solid solid, itemsOf_eq_map (by simpa using notHyphen)]
  rfl

theorem parse_of_solid (solid : Solid token) (notHyphen : token ≠ ['-']) :
    parse options token = expandToken options token := by
  have notBlank : ¬allBlank token = true :=
    not_blank_of_tokens_ne_nil (by simp [tokens_of_solid solid])
  rw [parse_of_not_blank notBlank, items_of_solid solid notHyphen, flatten_mapM_cons]
  cases outcome : expandToken options token <;> simp [Item.expand, outcome, Except.map]

end Alone

section Padded

variable {options : ParseOptions} {group : List Comparator} {front back : List Char}

theorem tokens_groupText (stamped : ∀ c ∈ group, c.Stamped options)
    (frontBlank : allBlank front = true) (backBlank : allBlank back = true) :
    tokens (front ++ (Range.groupText group).toList ++ back) =
      group.map fun c => c.text.toList := by
  have written : (Range.groupText group).toList =
      [' '].intercalate (group.map fun c => c.text.toList) := by
    simp [Range.groupText, String.toList_intercalate, Function.comp_def]
  rw [tokens_padded frontBlank backBlank, written, tokens_spaced]
  simpa using fun c member => Comparator.solid_text (stamped c member)

theorem not_blank_groupText (nonempty : group ≠ []) (stamped : ∀ c ∈ group, c.Stamped options)
    (frontBlank : allBlank front = true) (backBlank : allBlank back = true) :
    ¬allBlank (front ++ (Range.groupText group).toList ++ back) = true := by
  apply not_blank_of_tokens_ne_nil
  rw [tokens_groupText stamped frontBlank backBlank]
  simpa using nonempty

/-- A written group is read back, whatever blanks there are around it. -/
theorem parse_groupText (nonempty : group ≠ []) (stamped : ∀ c ∈ group, c.Stamped options)
    (frontBlank : allBlank front = true) (backBlank : allBlank back = true) :
    parse options (front ++ (Range.groupText group).toList ++ back) = .ok group := by
  have singles : itemsOf (front ++ (Range.groupText group).toList ++ back)
      (group.map fun c => c.text.toList) = group.map fun c => .single c.text.toList := by
    rw [itemsOf_eq_map, List.map_map]
    · rfl
    · simpa using fun c _ => c.text_ne_hyphen
  have expansions : (group.map fun c => Item.single c.text.toList).mapM (Item.expand options) =
      .ok (group.map fun c => [c]) := by
    rw [mapM_eq_ok_iff, List.forall₂_map_left_iff, List.forall₂_map_right_iff, List.forall₂_same]
    exact fun c member => Comparator.expandToken_text (stamped c member)
  have notBlank := not_blank_groupText nonempty stamped frontBlank backBlank
  rw [parse_of_not_blank notBlank, items, if_neg notBlank,
    tokens_groupText stamped frontBlank backBlank, singles, expansions]
  simp [Except.map, ← List.flatMap_def]

end Padded

end Group

end VersionRange
