import VersionRange.Proofs.Inclusive
import VersionRange.Proofs.Union

/-!
# What joined ranges come down to

A range has come down to an all-inclusive comparator, or to an all-exclusive one, or it was
left as its groups.  Of two joined ranges the first that is all-inclusive is the whole
result, and without one the result admits what either range admits, unless one of them is
all-exclusive.  Only the first rule depends on the order, and on the form of the comparator.
-/

namespace VersionRange

open Fallible

namespace Range

/-- The range is a single all-inclusive comparator. -/
def Inclusive (range : Range) : Prop :=
  ∃ c, range.groups = [[c]] ∧ c.isAllInclusive = true

/-- The range is a single all-exclusive comparator. -/
def Exclusive (range : Range) : Prop :=
  ∃ c, range.groups = [[c]] ∧ c.isAllExclusive = true

section Groups

variable {groups first second : List (List Comparator)} {c : Comparator} {range : Range}
  {record : Option JournalRecord}

theorem find?_of_allInclusive? (found : allInclusive? groups = .ok (some c)) :
    ∃ rest, groups.find? (fun group => group.all Comparator.isAllInclusive) = some (c :: rest) := by
  unfold allInclusive? at found
  split at found
  · cases found
  · cases found
  next rest search =>
    cases found
    exact ⟨rest, search⟩

theorem allInclusive?_append_of_some (found : allInclusive? first = .ok (some c))
    (second : List (List Comparator)) : allInclusive? (first ++ second) = .ok (some c) := by
  obtain ⟨rest, search⟩ := find?_of_allInclusive? found
  rw [allInclusive?, List.find?_append, search, Option.some_or]

theorem allInclusive?_append_of_none (none : allInclusive? first = .ok none)
    (second : List (List Comparator)) :
    allInclusive? (first ++ second) = allInclusive? second := by
  have search : first.find? (fun group => group.all Comparator.isAllInclusive) = .none := by
    have each := allInclusive?_eq_none_iff.mp none
    refine List.find?_eq_none.mpr fun group member => ?_
    rw [all_isAllInclusive_eq_false_iff.mpr (each group member)]
    decide
  rw [allInclusive?, List.find?_append, search, Option.none_or, ← allInclusive?]

theorem eq_of_allInclusive? (found : allInclusive? groups = .ok (some c))
    (simplified : simplify groups = .ok (range, record)) : range = ⟨[[c]]⟩ := by
  rw [simplify, found, ok_bind] at simplified
  cases simplified
  rfl

theorem not_isAllExclusive_of_isAllInclusive (inclusive : c.isAllInclusive = true) :
    c.isAllExclusive = false := by
  rcases Comparator.isAllInclusive_cases inclusive with ⟨own, rfl⟩ | ⟨target, own, rfl, -⟩ <;> rfl

/-- What a range has come down to tells whether there was an all-inclusive group. -/
theorem inclusive_iff (simplified : simplify groups = .ok (range, record)) :
    range.Inclusive ↔ ∃ c, allInclusive? groups = .ok (some c) := by
  constructor
  · rintro ⟨c, single, inclusive⟩
    cases search : allInclusive? groups with
    | error fault =>
        rw [simplify_eq_error_iff.mpr search] at simplified
        cases simplified
    | ok found =>
        cases found with
        | some d => exact ⟨d, rfl⟩
        | none =>
            have each := allInclusive?_eq_none_iff.mp search
            rcases simplify_outcomes simplified with
              ⟨group, member, all, -⟩ | ⟨-, d, -, exclusive, other⟩ | ⟨same, -⟩
            · obtain ⟨d, inside, notInclusive⟩ := each group member
              rw [all d inside] at notInclusive
              cases notInclusive
            · obtain rfl : c = d := by simpa [single] using other
              rw [not_isAllExclusive_of_isAllInclusive inclusive] at exclusive
              cases exclusive
            · obtain ⟨d, inside, notInclusive⟩ := each [c] (by simp [← same, single])
              obtain rfl := List.mem_singleton.mp inside
              rw [inclusive] at notInclusive
              cases notInclusive
  · rintro ⟨c, found⟩
    obtain ⟨group, -, all, inside⟩ := mem_of_allInclusive? found
    exact ⟨c, by rw [eq_of_allInclusive? found simplified], all c inside⟩

theorem allInclusive?_eq_none_of_not_inclusive
    (simplified : simplify groups = .ok (range, record)) (not : ¬range.Inclusive) :
    allInclusive? groups = .ok none := by
  rw [inclusive_iff simplified, not_exists] at not
  cases search : allInclusive? groups with
  | error fault =>
      rw [simplify_eq_error_iff.mpr search] at simplified
      cases simplified
  | ok found =>
      cases found with
      | some c => exact absurd search (not c)
      | none => rfl

theorem exclusive_iff_of_not_inclusive (simplified : simplify groups = .ok (range, record))
    (not : ¬range.Inclusive) :
    range.Exclusive ↔ ∃ c ∈ groups.flatten, c.isAllExclusive = true := by
  have none := allInclusive?_eq_none_of_not_inclusive simplified not
  have each := allInclusive?_eq_none_iff.mp none
  rcases simplify_outcomes simplified with
    ⟨group, member, all, -⟩ | ⟨-, c, inside, exclusive, single⟩ | ⟨same, irreducible⟩
  · obtain ⟨c, inside, notInclusive⟩ := each group member
    rw [all c inside] at notInclusive
    cases notInclusive
  · exact iff_of_true ⟨c, single, exclusive⟩ ⟨c, inside, exclusive⟩
  · have ordinary (c : Comparator) (inside : c ∈ groups.flatten) : c.isAllExclusive = false := by
      obtain ⟨group, member, among⟩ := List.mem_flatten.mp inside
      exact (irreducible group member).2 c among
    refine iff_of_false ?_ ?_
    · rintro ⟨c, single, exclusive⟩
      rw [ordinary c (by simp [← same, single])] at exclusive
      cases exclusive
    · rintro ⟨c, inside, exclusive⟩
      rw [ordinary c inside] at exclusive
      cases exclusive

/-- A range without an all-inclusive group admits what one of its groups admits, unless it
has come down to an all-exclusive comparator. -/
theorem includes_iff_of_not_inclusive {options : ParseOptions} {parts : List (List Char)}
    (read : parseGroups options parts = .ok groups)
    (simplified : simplify groups = .ok (range, record)) (not : ¬range.Inclusive) (v : Version) :
    range.includes v = true ↔
      ¬range.Exclusive ∧ ∃ group ∈ groups, groupIncludes group v = true := by
  by_cases nothing : range.Exclusive
  · obtain ⟨c, single, exclusive⟩ := nothing
    have own : c.Stamped options := by
      have inside : ∃ group ∈ groups, c ∈ group := by
        rcases simplify_cases simplified with ⟨d, among, -, other⟩ | ⟨same, -⟩
        · obtain rfl : c = d := by simpa [single] using other
          exact List.mem_flatten.mp among
        · exact ⟨[c], by simp [← same, single], List.mem_singleton_self c⟩
      obtain ⟨group, member, among⟩ := inside
      exact stamped_of_parseGroups read member c among
    have none := not_includes_of_isAllExclusive own exclusive single v
    simpa [none] using fun ordinary => absurd ⟨c, single, exclusive⟩ ordinary
  · have same : range.groups = groups := by
      rcases simplify_outcomes simplified with
        ⟨group, -, all, c, inside, single⟩ | ⟨-, c, -, exclusive, single⟩ | ⟨same, -⟩
      · exact absurd ⟨c, single, all c inside⟩ not
      · exact absurd ⟨c, single, exclusive⟩ nothing
      · exact same
    rw [includes, same, List.any_eq_true, and_iff_right nothing]

end Groups

/-- How a joined range is made of the two ranges that its texts are read as. -/
structure Joined (first second joined : Range) : Prop where
  ofFirst : first.Inclusive → joined = first
  ofSecond : ¬first.Inclusive → second.Inclusive → joined = second
  ofEither : ¬first.Inclusive → ¬second.Inclusive → ¬joined.Inclusive ∧
    ∀ v, joined.includes v = true ↔ (¬first.Exclusive ∧ ¬second.Exclusive) ∧
      (first.includes v = true ∨ second.includes v = true)

variable {options : ParseOptions} {first second : String} {firstRange secondRange : Range}

theorem exists_joined (firstRead : parse options first = .ok firstRange)
    (secondRead : parse options second = .ok secondRange) :
    ∃ range, parse options (first ++ "||" ++ second) = .ok range ∧
      Joined firstRange secondRange range := by
  obtain ⟨firstGroups, firstRecord, firstGroupsRead, firstSimplified⟩ :=
    parse_eq_ok_iff.mp firstRead
  obtain ⟨secondGroups, secondRecord, secondGroupsRead, secondSimplified⟩ :=
    parse_eq_ok_iff.mp secondRead
  obtain ⟨range, record, simplified⟩ := simplify_append firstSimplified secondSimplified
  have groupsRead := parseGroups_append firstGroupsRead secondGroupsRead
  rw [← splitGroups_joined firstGroupsRead second] at groupsRead
  refine ⟨range, parse_eq_ok_iff.mpr ⟨_, record, groupsRead, simplified⟩, ?_, ?_, ?_⟩
  · intro inclusive
    obtain ⟨c, found⟩ := (inclusive_iff firstSimplified).mp inclusive
    have whole := allInclusive?_append_of_some found secondGroups
    rw [eq_of_allInclusive? found firstSimplified, eq_of_allInclusive? whole simplified]
  · intro not inclusive
    have none := allInclusive?_eq_none_of_not_inclusive firstSimplified not
    obtain ⟨c, found⟩ := (inclusive_iff secondSimplified).mp inclusive
    have whole := (allInclusive?_append_of_none none secondGroups).trans found
    rw [eq_of_allInclusive? found secondSimplified, eq_of_allInclusive? whole simplified]
  · intro firstNot secondNot
    have firstNone := allInclusive?_eq_none_of_not_inclusive firstSimplified firstNot
    have secondNone := allInclusive?_eq_none_of_not_inclusive secondSimplified secondNot
    have not : ¬range.Inclusive := by
      rw [inclusive_iff simplified, allInclusive?_append_of_none firstNone, secondNone]
      simp
    have exclusive : ¬range.Exclusive ↔ ¬firstRange.Exclusive ∧ ¬secondRange.Exclusive := by
      rw [exclusive_iff_of_not_inclusive simplified not,
        exclusive_iff_of_not_inclusive firstSimplified firstNot,
        exclusive_iff_of_not_inclusive secondSimplified secondNot, ← not_or]
      simp only [List.flatten_append, List.mem_append, or_and_right, exists_or]
    refine ⟨not, fun v => ?_⟩
    rw [includes_iff_of_not_inclusive groupsRead simplified not,
      includes_iff_of_not_inclusive firstGroupsRead firstSimplified firstNot,
      includes_iff_of_not_inclusive secondGroupsRead secondSimplified secondNot, exclusive]
    simp only [List.mem_append, or_and_right, exists_or]
    refine and_congr_right fun ordinary => ?_
    rw [and_iff_right ordinary.1, and_iff_right ordinary.2]

end Range

end VersionRange
