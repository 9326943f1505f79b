import Mathlib.Logic.Relation
import VersionRange.Proofs.Group.Replacing
import VersionRange.Proofs.Partial.Respelling

/-!
# Respelling groups

The tokens of a group can be respelled one at a time: the partial version behind an operator
or beside a hyphen is written in another way, or an operator is exchanged for another symbol
that means the same.  A bare token next to a hyphen is an operand of it and may not get an
operator.  None of this changes the comparators of a group that is read.
-/

namespace VersionRange

open Fallible

namespace Group

section Token

variable {options : ParseOptions} {symbol other : String} {op : ItemOperator}
  {text respelled : List Char}

theorem replaces_of_respelling (step : PartialVersion.Respelling text respelled) :
    Replaces options id text respelled where
  begins := step.begins
  reads p read := ⟨p, step.parseChars read, alike_self id p⟩

theorem expandToken_of_symbols {w : PartialVersion.Written}
    (known : (symbol, op) ∈ ItemOperator.symbols) (alsoKnown : (other, op) ∈ ItemOperator.symbols)
    (form : PartialVersion.Written.read? text = some w) :
    expandToken options (symbol.toList ++ text) = expandToken options (other.toList ++ text) := by
  rw [expandToken, expandToken, readOperator_item known form, readOperator_item alsoKnown form]

end Token

/-- One token is respelled: the partial version in it, behind any operator, or the symbol of
its operator, which a token beside a hyphen cannot have. -/
inductive Respelling : List (List Char) → List (List Char) → Prop
  | operand (front back : List (List Char)) {symbol : String} {op : ItemOperator}
      {text respelled : List Char} (known : (symbol, op) ∈ ItemOperator.symbols)
      (step : PartialVersion.Respelling text respelled) :
      Respelling (front ++ (symbol.toList ++ text) :: back)
        (front ++ (symbol.toList ++ respelled) :: back)
  | symbol (front back : List (List Char)) {symbol other : String} {op : ItemOperator}
      {text : List Char} {w : PartialVersion.Written}
      (known : (symbol, op) ∈ ItemOperator.symbols) (alsoKnown : (other, op) ∈ ItemOperator.symbols)
      (form : PartialVersion.Written.read? text = some w)
      (before : front.getLast? ≠ some ['-']) (behind : back.head? ≠ some ['-']) :
      Respelling (front ++ (symbol.toList ++ text) :: back)
        (front ++ (other.toList ++ text) :: back)

section Respelled

variable {options : ParseOptions} {found : List Comparator}

/-- An item by itself expands as it did when its operator gets another symbol. -/
theorem Item.exists_of_symbol {item : Item} {a b : List (List Char)} {symbol other : String}
    {op : ItemOperator} {text : List Char} {w : PartialVersion.Written}
    (known : (symbol, op) ∈ ItemOperator.symbols) (alsoKnown : (other, op) ∈ ItemOperator.symbols)
    (form : PartialVersion.Written.read? text = some w) (before : a.getLast? ≠ some ['-'])
    (behind : b.head? ≠ some ['-']) (own : item.tokens = a ++ (symbol.toList ++ text) :: b)
    (expands : item.expand options = .ok found) :
    ∃ changed : Item, changed.tokens = a ++ (other.toList ++ text) :: b ∧
      changed.expand options = .ok found := by
  rcases Item.cases_of_tokens own with ⟨rfl, rfl, rfl⟩ | ⟨upper, rfl, rfl, rfl⟩ |
    ⟨lower, upper, rfl, hyphen, rfl, rfl⟩ | ⟨lower, rfl, rfl, rfl⟩
  · refine ⟨.single _, rfl, ?_⟩
    rw [← expands]
    exact (expandToken_of_symbols known alsoKnown form).symm
  · exact absurd rfl behind
  · exact absurd hyphen (item_ne_hyphen form)
  · exact absurd rfl before

theorem expands_of_respelling {tokens respelled : List (List Char)}
    (step : Respelling tokens respelled) (expands : Expands options tokens found) :
    Expands options respelled found := by
  cases step with
  | operand front back known step =>
      obtain ⟨changed, again, same⟩ :=
        expands_of_operand known (replaces_of_respelling step) expands
      rw [List.map_id, List.map_id] at same
      subst same
      exact again
  | symbol front back known alsoKnown form noHyphenBefore noHyphenBehind =>
      obtain ⟨items, expansions, same, each, rfl⟩ := expands
      obtain ⟨before, item, after, a, b, rfl, own, rfl, rfl⟩ := exists_item_of_append same
      obtain ⟨expansion, old⟩ := mapM_succeeds_iff.mp ⟨expansions, each⟩ item (by simp)
      have aPlain : a.getLast? ≠ some ['-'] := fun last =>
        noHyphenBefore (by rw [List.getLast?_append, last]; rfl)
      have bPlain : b.head? ≠ some ['-'] := fun head =>
        noHyphenBehind (by rw [List.head?_append, head]; rfl)
      obtain ⟨other, otherOwn, new⟩ :=
        Item.exists_of_symbol known alsoKnown form aPlain bPlain own old
      obtain ⟨changed, again, unchanged⟩ := expands_of_replaced (f := id) each old new rfl
      rw [List.map_id, List.map_id] at unchanged
      subst unchanged
      simpa [otherOwn] using again

theorem ne_nil_of_respelling {tokens respelled : List (List Char)}
    (step : Respelling tokens respelled) : respelled ≠ [] := by
  cases step <;> simp

theorem expands_of_respellings {tokens respelled : List (List Char)}
    (steps : Relation.ReflTransGen Respelling tokens respelled) (some : tokens ≠ [])
    (expands : Expands options tokens found) :
    respelled ≠ [] ∧ Expands options respelled found := by
  induction steps with
  | refl => exact ⟨some, expands⟩
  | tail _ step ih => exact ⟨ne_nil_of_respelling step, expands_of_respelling step ih.2⟩

end Respelled

/-- The tokens of one text are respelled, one after the other, to those of the other text.
A text without tokens is only related to itself. -/
inductive Respelled (group : List Char) : List Char → Prop
  | same : Respelled group group
  | tokens {other : List Char} (some : tokens group ≠ [])
      (steps : Relation.ReflTransGen Respelling (tokens group) (tokens other)) :
      Respelled group other

/-- However its tokens are respelled, a group that is read keeps its comparators. -/
theorem parse_respelled {options : ParseOptions} {group other : List Char}
    {found : List Comparator} (read : parse options group = .ok found)
    (respelled : Respelled group other) : parse options other = .ok found := by
  cases respelled with
  | same => exact read
  | tokens some steps =>
      rw [parse_eq_ok_iff_expands (not_blank_of_tokens_ne_nil some)] at read
      obtain ⟨otherSome, expands⟩ := expands_of_respellings steps some read
      exact (parse_eq_ok_iff_expands (not_blank_of_tokens_ne_nil otherSome)).mpr expands

open PartialVersion in
/-- Wildcards, what follows them, a `v`, a tilde and an equals sign, all in one group. -/
theorem parse_respelled_of_hyphen :
    parse {} "v1.x.3 - 2.X ~> 1.2 =3".toList =
        .ok (hyphenComparators {} (.major 1) (.major 2) ++ itemComparators {} .tilde (.minor 1 2) ++
          itemComparators {} (.primitive .equal) (.major 3)) ∧
      parse {} "v1 - 2.* , ~v1.2,3".toList = parse {} "v1.x.3 - 2.X ~> 1.2 =3".toList := by
  have read : parse {} "v1.x.3 - 2.X ~> 1.2 =3".toList =
      .ok (hyphenComparators {} (.major 1) (.major 2) ++ itemComparators {} .tilde (.minor 1 2) ++
        itemComparators {} (.primitive .equal) (.major 3)) := rfl
  have lower : PartialVersion.Respelling "v1.x.3".toList "v1".toList := by
    have dropped : Rewording (upToWildcard [['1']] 'x' ['.', '3']) (dotted [['1']]) :=
      .drop (by decide) rfl (by simp)
    exact .marked dropped
  have upper : PartialVersion.Respelling "2.X".toList "2.*".toList := by
    have number : (Place.number ['2']).Spelled ['2'] := .number rfl
    exact .plain (.wildcards (.two number (.wildcard rfl)) (.two number (.wildcard rfl)))
  have marked : PartialVersion.Respelling "1.2".toList "v1.2".toList := by
    have form : Written.Spelled ⟨.number ['1'], some (.number ['2']), none, []⟩ "1.2".toList :=
      .two (.number rfl) (.number rfl)
    exact .mark form
  have tokensOf : tokens "v1.x.3 - 2.X ~> 1.2 =3".toList =
      ["v1.x.3".toList, ['-'], "2.X".toList, "~>1.2".toList, "=3".toList] := rfl
  have respelled : tokens "v1 - 2.* , ~v1.2,3".toList =
      ["v1".toList, ['-'], "2.*".toList, "~v1.2".toList, "3".toList] := rfl
  refine ⟨read, ?_⟩
  rw [read]
  refine parse_respelled read (.tokens (by rw [tokensOf]; simp) ?_)
  rw [tokensOf, respelled]
  -- The operands of the hyphen first, then the tilde and what it stands before.
  refine .head (.operand [] _ (.head _) lower) ?_
  refine .head (.operand ["v1".toList, ['-']] _ (.head _) upper) ?_
  have twoTildes : ("~>", .tilde) ∈ ItemOperator.symbols ∧
      ("~", .tilde) ∈ ItemOperator.symbols := by
    decide
  have twoEquals : ("=", .primitive .equal) ∈ ItemOperator.symbols ∧
      ("", .primitive .equal) ∈ ItemOperator.symbols := by
    decide
  have oneTwo : Written.read? "1.2".toList = some ⟨.number ['1'], some (.number ['2']), none, []⟩ :=
    rfl
  have three : Written.read? "3".toList = some ⟨.number ['3'], none, none, []⟩ := rfl
  refine .head (.symbol ["v1".toList, ['-'], "2.*".toList] ["=3".toList] twoTildes.1 twoTildes.2
    oneTwo (by decide) (by decide)) ?_
  refine .head (.operand ["v1".toList, ['-'], "2.*".toList] _ twoTildes.2 marked) ?_
  exact .single (.symbol ["v1".toList, ['-'], "2.*".toList, "~v1.2".toList] [] twoEquals.1
    twoEquals.2 three (by decide) (by decide))

end Group

end VersionRange
