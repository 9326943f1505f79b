import VersionRange.Proofs.Group.Operands

/-!
# The seam of two groups

A group that is read does not end in an operator, so that a blank behind it is not dropped,
and what stands behind the blank has the tokens that it has alone.  Neither group begins or
ends in a hyphen that lacks a token, so no item reaches across the blank: together the
groups have the comparators of the first and then those of the second.
-/

namespace VersionRange

open Fallible

namespace Group

theorem closed_of_operand {operand : List Char} {p : PartialVersion}
    (read : PartialVersion.parseChars operand = .ok p) (front : List Char) {c : Char}
    (last : (front ++ operand).getLast? = some c) : isOperatorChar c = false := by
  obtain ⟨w, form⟩ := PartialVersion.exists_read?_of_parseChars read
  rw [List.getLast?_append_of_ne_nil _ (PartialVersion.ne_nil_of_read? form)] at last
  exact not_isOperatorChar_of_read? form (List.mem_of_getLast? last)

theorem closed_of_expand {options : ParseOptions} {item : Item} {found : List Comparator}
    (expands : item.expand options = .ok found) {token : List Char} (among : token ∈ item.tokens)
    {c : Char} (last : token.getLast? = some c) : isOperatorChar c = false := by
  rcases Item.expand_cases expands with
    ⟨whole, p, rfl, read, -⟩ | ⟨lower, upper, low, high, rfl, lowRead, highRead, -⟩
  · rw [Item.tokens, List.mem_singleton] at among
    subst among
    obtain ⟨symbol, split, -⟩ := exists_symbol_append token
    rw [split] at last
    exact closed_of_operand read symbol last
  · simp only [Item.tokens, List.mem_cons, List.not_mem_nil, or_false] at among
    rcases among with rfl | rfl | rfl
    · exact closed_of_operand lowRead [] last
    · cases last
      decide
    · exact closed_of_operand highRead [] last

section Items

variable {group : List Char} {first : List (List Char)}

/-- Items none of which lacks a token are found again in front of other tokens, unless the
others begin with a hyphen. -/
theorem itemsOf_append
    (complete : ∀ item ∈ itemsOf group first, item ≠ .noLower group ∧ item ≠ .noUpper group)
    (whole : List Char) (second : List (List Char)) (noHyphen : second.head? ≠ some ['-']) :
    itemsOf whole (first ++ second) = itemsOf group first ++ itemsOf whole second := by
  fun_induction itemsOf group first with
  | case1 => rfl
  | case2 rest => exact absurd rfl (complete _ List.mem_cons_self).1
  | case3 token notLower => exact absurd rfl (complete _ List.mem_cons_self).2
  | case4 lower upper rest notLower ih =>
      have others := ih fun item member => complete item (List.mem_cons_of_mem _ member)
      simp only [List.cons_append]
      rw [itemsOf, others]
      exact notLower
  | case5 token rest notLower notUpper notHyphen ih =>
      have others := ih fun item member => complete item (List.mem_cons_of_mem _ member)
      rw [List.cons_append, itemsOf, others]
      · rfl
      · exact notLower
      -- A hyphen behind the token would stand in `rest`, or at the head of `second`.
      · intro last
        cases rest with
        | nil => exact noHyphen (by rw [← List.nil_append second, last, List.head?_cons])
        | cons next rest =>
            obtain ⟨rfl, empty⟩ := List.cons.inj last
            exact notUpper (by rw [(List.append_eq_nil_iff.mp empty).1])
      · intro upper tail last
        cases rest with
        | nil => exact noHyphen (by rw [← List.nil_append second, last, List.head?_cons])
        | cons next rest =>
            obtain ⟨rfl, -⟩ := List.cons.inj last
            cases rest with
            | nil => exact notUpper rfl
            | cons other rest => exact notHyphen other rest rfl

theorem itemsOf_of_complete
    (complete : ∀ item ∈ itemsOf group first, item ≠ .noLower group ∧ item ≠ .noUpper group)
    (whole : List Char) : itemsOf whole first = itemsOf group first := by
  have alone := itemsOf_append complete whole [] (by simp)
  simpa [itemsOf] using alone

theorem head?_ne_hyphen_of_complete
    (complete : ∀ item ∈ itemsOf group first, item ≠ .noLower group ∧ item ≠ .noUpper group) :
    first.head? ≠ some ['-'] := by
  intro head
  obtain ⟨rest, rfl⟩ := List.head?_eq_some_iff.mp head
  exact (complete (.noLower group) (by simp [itemsOf])).1 rfl

end Items

section Groups

variable {options : ParseOptions} {first second : List Char}
  {firstFound secondFound : List Comparator}

theorem not_blank_append (firstSome : ¬allBlank first = true) (second : List Char) :
    ¬allBlank (first ++ ' ' :: second) = true := by
  intro blank
  rw [allBlank, List.all_append, Bool.and_eq_true] at blank
  exact firstSome blank.1

/-- Two groups with a blank between them are read as the comparators of both. -/
theorem parse_append (firstRead : parse options first = .ok firstFound)
    (secondRead : parse options second = .ok secondFound) (firstSome : ¬allBlank first = true)
    (secondSome : ¬allBlank second = true) :
    parse options (first ++ ' ' :: second) = .ok (firstFound ++ secondFound) := by
  have firstComplete := complete_of_expand (expands_of_parse firstRead firstSome) first
  have secondComplete := complete_of_expand (expands_of_parse secondRead secondSome) second
  have closed : ∀ token ∈ tokens first, ∀ c, token.getLast? = some c →
      isOperatorChar c = false := by
    intro token among c last
    obtain ⟨item, comparators, ofItem, expands⟩ := exists_item_of_token firstRead firstSome among
    exact closed_of_expand expands ofItem last
  obtain ⟨firstExpansions, firstExpands, rfl⟩ :=
    (parse_eq_ok_iff_of_not_blank firstSome).mp firstRead
  obtain ⟨secondExpansions, secondExpands, rfl⟩ :=
    (parse_eq_ok_iff_of_not_blank secondSome).mp secondRead
  rw [parse_eq_ok_iff_of_not_blank (not_blank_append firstSome second),
    tokens_append_space closed,
    itemsOf_append firstComplete _ _ (head?_ne_hyphen_of_complete secondComplete),
    itemsOf_of_complete secondComplete]
  refine ⟨firstExpansions ++ secondExpansions, ?_, List.flatten_append⟩
  rw [List.mapM_append, firstExpands, secondExpands]
  rfl

/-- Blanks around a group that is read change nothing. -/
theorem parse_padded {group : List Char} {found : List Comparator}
    (read : parse options group = .ok found) (front back : List Char)
    (frontBlank : allBlank front = true) (backBlank : allBlank back = true) :
    parse options (front ++ group ++ back) = .ok found := by
  have whole : allBlank (front ++ group ++ back) = allBlank group := by
    unfold allBlank at frontBlank backBlank ⊢
    rw [List.all_append, List.all_append, frontBlank, backBlank, Bool.true_and, Bool.and_true]
  by_cases blank : allBlank group = true
  · rw [parse_of_blank blank] at read
    rw [parse_of_blank (whole.trans blank), read]
  · have complete := complete_of_expand (expands_of_parse read blank) group
    rw [parse_eq_ok_iff_of_not_blank (by rwa [whole]), tokens_padded frontBlank backBlank,
      itemsOf_of_complete complete]
    exact (parse_eq_ok_iff_of_not_blank blank).mp read

end Groups

end Group

end VersionRange
