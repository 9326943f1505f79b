import VersionRange.Proofs.Text.Blank
import VersionRange.Group

/-!
# The tokens of a group

Blanks are dropped behind operator characters only, so that a text none of whose tokens
ends in one keeps them in front of a space, and a sequence of such tokens is read back from
the text that has a space between neighbours.  What stands between separators completes a
token, whatever it is.  A group has no token at all only if it consists of blanks and commas.
-/

namespace VersionRange

namespace Group

/-- Whether blanks are dropped at the end of a text, as `after` tells at its start. -/
def afterOperator (after : Bool) (text : List Char) : Bool :=
  text.foldl (fun after c => after && isBlank c || isOperatorChar c) after

theorem joinOperators_append (after : Bool) (front rest : List Char) :
    joinOperators after (front ++ rest) =
      joinOperators after front ++ joinOperators (afterOperator after front) rest := by
  induction front generalizing after with
  | nil => rfl
  | cons c front ih =>
      by_cases dropped : (after && isBlank c) = true
      · simp [joinOperators, afterOperator, dropped, ih]
      · simp [joinOperators, afterOperator, dropped, ih]

theorem joinOperators_of_solid (after : Bool) {text : List Char}
    (solid : ∀ c ∈ text, isBlank c = false) : joinOperators after text = text := by
  induction text generalizing after with
  | nil => rfl
  | cons c rest ih =>
      obtain ⟨first, others⟩ := List.forall_mem_cons.mp solid
      simp [joinOperators, first, ih _ others]

theorem mem_joinOperators (after : Bool) {text : List Char} {c : Char} (member : c ∈ text)
    (solid : isBlank c = false) : c ∈ joinOperators after text := by
  induction text generalizing after with
  | nil => cases member
  | cons d rest ih =>
      rw [joinOperators]
      rcases List.mem_cons.mp member with rfl | later
      · rw [solid, Bool.and_false]
        exact List.mem_cons_self
      · split
        · exact ih true later
        · exact List.mem_cons_of_mem d (ih (isOperatorChar d) later)

theorem allBlank_joinOperators (after : Bool) (text : List Char) :
    allBlank (joinOperators after text) = allBlank text := by
  induction text generalizing after with
  | nil => rfl
  | cons c rest ih =>
      rw [joinOperators]
      split
      next dropped =>
        have blank : isBlank c = true := (Bool.and_eq_true_iff.mp dropped).2
        rw [ih]
        simp [allBlank, blank]
      · have others := ih (isOperatorChar c)
        unfold allBlank at others ⊢
        rw [List.all_cons, others, List.all_cons]

theorem not_isOperatorChar_of_isBlank {c : Char} (blank : isBlank c = true) :
    isOperatorChar c = false := by
  by_contra operator
  simp only [isOperatorChar, Bool.not_eq_false, Bool.or_eq_true, decide_eq_true_eq] at operator
  rcases operator with (((rfl | rfl) | rfl) | rfl) | rfl <;> revert blank <;> decide

theorem afterOperator_of_blank {text : List Char} (blank : allBlank text = true) :
    afterOperator false text = false := by
  induction text with
  | nil => rfl
  | cons c rest ih =>
      simp only [allBlank, List.all_cons, Bool.and_eq_true] at blank
      rw [afterOperator, List.foldl_cons, not_isOperatorChar_of_isBlank blank.1]
      exact ih blank.2

theorem allBlank_map_comma {text : List Char} (blank : allBlank text = true) :
    allBlank (text.map fun c => if c = ',' then ' ' else c) = true := by
  rw [allBlank, List.all_map, List.all_eq_true]
  intro c member
  by_cases comma : c = ','
  · simp [comma, isBlank_space]
  · simp [comma, mem_allBlank blank member]

/-- Blanks at the ends of a group do not change its tokens. -/
theorem tokens_padded {front back : List Char} (frontBlank : allBlank front = true)
    (backBlank : allBlank back = true) (text : List Char) :
    tokens (front ++ text ++ back) = tokens text := by
  have frontMapped := allBlank_map_comma frontBlank
  have backMapped := allBlank_map_comma backBlank
  rw [tokens, List.map_append, List.map_append, List.append_assoc, joinOperators_append,
    afterOperator_of_blank frontMapped, joinOperators_append, ← List.append_assoc,
    words_padded]
  · rfl
  · rw [allBlank_joinOperators, frontMapped]
  · rw [allBlank_joinOperators, backMapped]

theorem tokens_trimBlanks (text : List Char) : tokens (trimBlanks text) = tokens text := by
  obtain ⟨front, back, frontBlank, backBlank, whole⟩ := trimBlanks_around text
  conv_rhs => rw [whole, tokens_padded frontBlank backBlank]

/-- Blanks are dropped at the end of a text only behind an operator that is still there. -/
theorem exists_last_operator {after : Bool} {text : List Char}
    (dropping : afterOperator after text = true) :
    (∃ front c, joinOperators after text = front ++ [c] ∧ isOperatorChar c = true) ∨
      after = true ∧ joinOperators after text = [] := by
  induction text generalizing after with
  | nil => exact .inr ⟨dropping, rfl⟩
  | cons c rest ih =>
      rw [joinOperators]
      split
      next dropped =>
        have before : after = true := (Bool.and_eq_true_iff.mp dropped).1
        rw [afterOperator, List.foldl_cons, dropped, Bool.true_or] at dropping
        rcases ih dropping with last | ⟨-, empty⟩
        · exact .inl last
        · exact .inr ⟨before, empty⟩
      next kept =>
        rw [afterOperator, List.foldl_cons, Bool.eq_false_iff.mpr kept, Bool.false_or] at dropping
        refine .inl ?_
        rcases ih dropping with ⟨front, d, whole, operator⟩ | ⟨operator, empty⟩
        · exact ⟨c :: front, d, by rw [whole, List.cons_append], operator⟩
        · exact ⟨[], c, by rw [empty, List.nil_append], operator⟩

theorem exists_open_token {group : List Char}
    (dropping : afterOperator false (group.map fun c => if c = ',' then ' ' else c) = true) :
    ∃ token ∈ tokens group, ∃ c, token.getLast? = some c ∧ isOperatorChar c = true := by
  rcases exists_last_operator dropping with ⟨front, c, whole, operator⟩ | ⟨impossible, -⟩
  · have solid : isBlank c = false := by
      by_contra blank
      rw [not_isOperatorChar_of_isBlank (by simpa using blank)] at operator
      cases operator
    obtain ⟨token, among, last⟩ := exists_last_word front solid
    rw [← whole] at among
    exact ⟨token, among, c, last, operator⟩
  · cases impossible

theorem isBlank_of_separates {separator : Char}
    (separates : isBlank separator = true ∨ separator = ',') :
    isBlank (if separator = ',' then ' ' else separator) = true := by
  split
  · exact isBlank_space
  next notComma => exact separates.resolve_right notComma

/-- A blank or a comma keeps the tokens on its two sides apart, unless an operator stands
in front. -/
theorem tokens_append_separator {first : List Char}
    (closed : ∀ token ∈ tokens first, ∀ c, token.getLast? = some c → isOperatorChar c = false)
    {separator : Char} (separates : isBlank separator = true ∨ separator = ',')
    (second : List Char) :
    tokens (first ++ separator :: second) = tokens first ++ tokens second := by
  have kept : afterOperator false (first.map fun c => if c = ',' then ' ' else c) = false := by
    by_contra dropping
    obtain ⟨token, among, c, last, operator⟩ := exists_open_token (by simpa using dropping)
    rw [closed token among c last] at operator
    cases operator
  have blank := isBlank_of_separates separates
  rw [tokens, List.map_append, List.map_cons, joinOperators_append, kept, joinOperators,
    Bool.false_and, if_neg Bool.false_ne_true, not_isOperatorChar_of_isBlank blank,
    words_append_blank blank]
  rfl

theorem tokens_append_space {first : List Char}
    (closed : ∀ token ∈ tokens first, ∀ c, token.getLast? = some c → isOperatorChar c = false)
    (second : List Char) : tokens (first ++ ' ' :: second) = tokens first ++ tokens second :=
  tokens_append_separator closed (.inl isBlank_space) second

/-- A token that the spacing of a group leaves as it is. -/
structure Solid (token : List Char) : Prop where
  nonempty : token ≠ []
  plain : ∀ c ∈ token, isBlank c = false ∧ c ≠ ','
  closed : ∀ c, token.getLast? = some c → isOperatorChar c = false

theorem map_comma_of_solid {token : List Char} (solid : Solid token) :
    (token.map fun c => if c = ',' then ' ' else c) = token := by
  rw [← List.map_id token, List.map_map]
  refine List.map_congr_left fun c member => ?_
  simp [(solid.plain c member).2]

theorem tokens_of_solid {token : List Char} (solid : Solid token) : tokens token = [token] := by
  have plain : ∀ c ∈ token, isBlank c = false := fun c member => (solid.plain c member).1
  rw [tokens, map_comma_of_solid solid, joinOperators_of_solid false plain,
    words_of_solid solid.nonempty plain]

theorem afterOperator_append_singleton (after : Bool) (text : List Char) (c : Char) :
    afterOperator after (text ++ [c]) =
      (afterOperator after text && isBlank c || isOperatorChar c) := by
  simp [afterOperator]

theorem afterOperator_of_solid {token : List Char} (solid : Solid token) (after : Bool) :
    afterOperator after token = false := by
  obtain ⟨front, c, rfl⟩ := (List.eq_nil_or_concat' token).resolve_left solid.nonempty
  rw [afterOperator_append_singleton, (solid.plain c (by simp)).1, solid.closed c (by simp)]
  simp

section Around

variable {front back : List Char}

/-- In front of an operand the spacing leaves an operator or nothing but a blank. -/
theorem isOperatorChar_of_joined
    (opens : ∀ c, front.getLast? = some c →
      isBlank c = true ∨ c = ',' ∨ isOperatorChar c = true) {c : Char}
    (last : (joinOperators false (front.map fun c => if c = ',' then ' ' else c)).getLast? = some c)
    (solid : isBlank c = false) : isOperatorChar c = true := by
  cases dropping : afterOperator false (front.map fun c => if c = ',' then ' ' else c) with
  | true =>
      rcases exists_last_operator dropping with ⟨before, d, whole, operator⟩ | ⟨impossible, -⟩
      · rw [whole, List.getLast?_concat, Option.some_inj] at last
        rwa [← last]
      · cases impossible
  | false =>
      rcases List.eq_nil_or_concat' front with rfl | ⟨before, d, rfl⟩
      · cases last
      · rw [List.map_append, List.map_singleton] at dropping last
        rw [afterOperator_append_singleton, Bool.or_eq_false_iff] at dropping
        have separates : isBlank d = true ∨ d = ',' := by
          rcases opens d (by simp) with blank | comma | operator
          · exact .inl blank
          · exact .inr comma
          · by_cases comma : d = ','
            · exact .inr comma
            · rw [if_neg comma, operator] at dropping
              cases dropping.2
        have blank := isBlank_of_separates separates
        rw [blank, Bool.and_true] at dropping
        rw [joinOperators_append, dropping.1, joinOperators, Bool.false_and,
          if_neg Bool.false_ne_true, joinOperators, List.getLast?_concat, Option.some_inj] at last
        rw [← last, blank] at solid
        cases solid

/-- Between separators an operand completes a token, whatever it is. -/
theorem tokens_around
    (opens : ∀ c, front.getLast? = some c →
      isBlank c = true ∨ c = ',' ∨ isOperatorChar c = true)
    (closes : ∀ c, back.head? = some c → isBlank c = true ∨ c = ',') :
    ∃ before symbol after, (∀ c, symbol.getLast? = some c → isOperatorChar c = true) ∧
      ∀ word, Solid word →
        tokens (front ++ (word ++ back)) = before ++ (symbol ++ word) :: after := by
  have closed : ∀ c, (joinOperators false
      (back.map fun c => if c = ',' then ' ' else c)).head? = some c → isBlank c = true := by
    cases back with
    | nil => simp [joinOperators]
    | cons c rest =>
        intro d head
        rw [List.map_cons, joinOperators, Bool.false_and, if_neg Bool.false_ne_true] at head
        obtain rfl := Option.some_inj.mp head
        exact isBlank_of_separates (closes c rfl)
  obtain ⟨before, symbol, after, last, around⟩ :=
    words_around (joinOperators false (front.map fun c => if c = ',' then ' ' else c)) closed
  refine ⟨before, symbol, after, fun c same => ?_, fun word solid => ?_⟩
  · obtain ⟨plain, joined⟩ := last c same
    exact isOperatorChar_of_joined opens joined plain
  · have plain : ∀ c ∈ word, isBlank c = false := fun c member => (solid.plain c member).1
    rw [tokens, List.map_append, List.map_append, map_comma_of_solid solid, joinOperators_append,
      joinOperators_append, joinOperators_of_solid _ plain, afterOperator_of_solid solid,
      around word solid.nonempty plain]

end Around

/-- Tokens with a space between any two neighbours are read back. -/
theorem tokens_spaced {separated : List (List Char)} (solid : ∀ token ∈ separated, Solid token) :
    tokens ([' '].intercalate separated) = separated := by
  induction separated with
  | nil => rfl
  | cons token rest ih =>
      obtain ⟨first, others⟩ := List.forall_mem_cons.mp solid
      cases rest with
      | nil => simpa [List.intercalate] using tokens_of_solid first
      | cons next rest =>
          have spaced : [' '].intercalate (token :: next :: rest) =
              token ++ ' ' :: [' '].intercalate (next :: rest) := by
            simp [List.intercalate]
          have closed : ∀ alone ∈ tokens token, ∀ c, alone.getLast? = some c →
              isOperatorChar c = false := by
            simpa [tokens_of_solid first] using first.closed
          rw [spaced, tokens_append_space closed, tokens_of_solid first, ih others]
          rfl

/-- A group without a token is one of blanks and commas. -/
theorem tokens_eq_nil_iff {group : List Char} :
    tokens group = [] ↔ ∀ c ∈ group, isBlank c = true ∨ c = ',' := by
  rw [tokens, words_eq_nil_iff, allBlank_joinOperators, allBlank, List.all_map, List.all_eq_true]
  refine forall₂_congr fun c _ => ?_
  by_cases comma : c = ','
  · simp [comma, isBlank_space]
  · simp [comma]

/-- What is neither a blank nor a comma stands in a token. -/
theorem exists_token_of_mem {group : List Char} {c : Char} (member : c ∈ group)
    (solid : isBlank c = false) (notComma : c ≠ ',') : ∃ token ∈ tokens group, c ∈ token := by
  have mapped : c ∈ group.map fun d => if d = ',' then ' ' else d :=
    List.mem_map.mpr ⟨c, member, if_neg notComma⟩
  exact exists_word_of_mem (mem_joinOperators false mapped solid) solid

theorem not_blank_of_tokens_ne_nil {group : List Char} (some : tokens group ≠ []) :
    ¬allBlank group = true :=
  fun blank => some (tokens_eq_nil_iff.mpr fun _ member => .inl (mem_allBlank blank member))

end Group

end VersionRange
