import VersionRange.Proofs.Inclusive
import VersionRange.Proofs.Joining
import VersionRange.Proofs.Version.Constructed

/-!
# Joined ranges below zero

All-inclusive comparators are taken for the same although they are not: the first of them
stands for the whole range, and what it makes of the prereleases of `0.0.0` is what the
range makes of them.  This is all that the order of joined ranges changes, and all that
their simplification changes if prereleases are included.
-/

namespace VersionRange

open Fallible

namespace Range

/-- The ranges are all-inclusive comparators of which one admits the prereleases of `0.0.0`
and the other does not. -/
def DifferBelowZero (first second : Range) : Prop :=
  ∃ c d, first.groups = [[c]] ∧ second.groups = [[d]] ∧ c.isAllInclusive = true ∧
    d.isAllInclusive = true ∧ c.admitsBelowZero ≠ d.admitsBelowZero

/-- The range is an all-inclusive comparator that admits no prerelease of `0.0.0`. -/
def RefusesBelowZero (range : Range) : Prop :=
  ∃ c, range.groups = [[c]] ∧ c.isAllInclusive = true ∧ c.admitsBelowZero = false

section Single

variable {range : Range} {c : Comparator}

theorem refusesBelowZero_iff_of_single (single : range.groups = [[c]])
    (inclusive : c.isAllInclusive = true) :
    range.RefusesBelowZero ↔ c.admitsBelowZero = false := by
  simp [RefusesBelowZero, single, inclusive]

theorem differBelowZero_iff_of_single {other : Range} {d : Comparator}
    (single : range.groups = [[c]]) (otherSingle : other.groups = [[d]])
    (inclusive : c.isAllInclusive = true) (otherInclusive : d.isAllInclusive = true) :
    range.DifferBelowZero other ↔ c.admitsBelowZero ≠ d.admitsBelowZero := by
  simp [DifferBelowZero, single, otherSingle, inclusive, otherInclusive]

end Single

variable {options : ParseOptions} {first second : String} {firstRange secondRange : Range}

/-- Ranges that are all-inclusive comparators admit the same versions but below zero. -/
theorem includes_eq_iff_of_inclusive {c d : Comparator} {v : Version}
    (single : firstRange.groups = [[c]]) (otherSingle : secondRange.groups = [[d]])
    (inclusive : c.isAllInclusive = true) (otherInclusive : d.isAllInclusive = true)
    (sameOptions : c.options = d.options) (built : Version.checked v = .ok v) :
    firstRange.includes v = secondRange.includes v ↔
      ¬(v.BelowZero ∧ firstRange.DifferBelowZero secondRange) := by
  rw [includes_of_single single, includes_of_single otherSingle, Bool.eq_iff_iff,
    differBelowZero_iff_of_single single otherSingle inclusive otherInclusive]
  by_cases below : v.BelowZero
  · rw [groupIncludes_of_belowZero inclusive built below,
      groupIncludes_of_belowZero otherInclusive built below, ← Bool.eq_iff_iff]
    simp [below]
  · rw [groupIncludes_of_not_belowZero inclusive built below,
      groupIncludes_of_not_belowZero otherInclusive built below, sameOptions]
    simp [below]

/-- Texts that are read are read joined in either order.  The order shows exactly on the
prereleases of `0.0.0`, and only if the texts come down to all-inclusive comparators of which
one admits these and the other does not. -/
theorem joined_in_order (firstRead : parse options first = .ok firstRange)
    (secondRead : parse options second = .ok secondRange) :
    ∃ forth back, parse options (first ++ "||" ++ second) = .ok forth ∧
      parse options (second ++ "||" ++ first) = .ok back ∧
        ∀ v : Version, v.Ranked →
          (forth.includes v = back.includes v ↔
            ¬(v.BelowZero ∧ firstRange.DifferBelowZero secondRange)) := by
  obtain ⟨forth, forthRead, forthJoined⟩ := exists_joined firstRead secondRead
  obtain ⟨back, backRead, backJoined⟩ := exists_joined secondRead firstRead
  refine ⟨forth, back, forthRead, backRead, fun v ranked => ?_⟩
  have apart (not : ¬firstRange.Inclusive ∨ ¬secondRange.Inclusive) :
      ¬(v.BelowZero ∧ firstRange.DifferBelowZero secondRange) := by
    rintro ⟨-, c, d, single, otherSingle, inclusive, otherInclusive, -⟩
    exact not.elim (fun none => none ⟨c, single, inclusive⟩)
      (fun none => none ⟨d, otherSingle, otherInclusive⟩)
  by_cases firstInclusive : firstRange.Inclusive
  · rw [forthJoined.ofFirst firstInclusive]
    by_cases secondInclusive : secondRange.Inclusive
    · rw [backJoined.ofFirst secondInclusive]
      obtain ⟨c, single, inclusive⟩ := firstInclusive
      obtain ⟨d, otherSingle, otherInclusive⟩ := secondInclusive
      have stamped := stamped_of_parse firstRead [c] (by simp [single]) c (by simp)
      have otherStamped := stamped_of_parse secondRead [d] (by simp [otherSingle]) d (by simp)
      exact includes_eq_iff_of_inclusive single otherSingle inclusive otherInclusive
        (stamped.options_eq.trans otherStamped.options_eq.symm) ranked.passed
    · rw [backJoined.ofSecond secondInclusive firstInclusive]
      exact iff_of_true rfl (apart (.inr secondInclusive))
  · refine iff_of_true ?_ (apart (.inl firstInclusive))
    by_cases secondInclusive : secondRange.Inclusive
    · rw [forthJoined.ofSecond firstInclusive secondInclusive, backJoined.ofFirst secondInclusive]
    · rw [Bool.eq_iff_iff, (forthJoined.ofEither firstInclusive secondInclusive).2,
        (backJoined.ofEither secondInclusive firstInclusive).2]
      rw [or_comm, and_comm (a := ¬firstRange.Exclusive)]

/-- `*` and `>=0.0.0`, joined in both orders, differ at `0.0.0-a` but not at `1.0.0-a`. -/
theorem joined_in_order_of_star :
    ∃ forth back, parse ⟨true⟩ "*||>=0.0.0" = .ok forth ∧ parse ⟨true⟩ ">=0.0.0||*" = .ok back ∧
      forth.includes ⟨1, 0, 0, [.word "a"], []⟩ = back.includes ⟨1, 0, 0, [.word "a"], []⟩ ∧
        forth.includes ⟨0, 0, 0, [.word "a"], []⟩ ≠ back.includes ⟨0, 0, 0, [.word "a"], []⟩ := by
  have star : parse ⟨true⟩ "*" = .ok ⟨[[.any ⟨true⟩]]⟩ := rfl
  have zero : parse ⟨true⟩ ">=0.0.0" =
      .ok ⟨[[.exact .greaterEqual (.release 0 0 0) ⟨true⟩]]⟩ := rfl
  have one : Version.parse "1.0.0-a" = .ok ⟨1, 0, 0, [.word "a"], []⟩ := rfl
  have below : Version.parse "0.0.0-a" = .ok ⟨0, 0, 0, [.word "a"], []⟩ := rfl
  obtain ⟨forth, back, forthRead, backRead, order⟩ := joined_in_order star zero
  refine ⟨forth, back, forthRead, backRead, (order _ (Version.ranked_of_parse one)).mpr ?_,
    (order _ (Version.ranked_of_parse below)).not.mpr ?_⟩
  · rintro ⟨⟨-, main⟩, -⟩
    cases main
  · exact not_not.mpr ⟨⟨rfl, rfl⟩, _, _, rfl, rfl, rfl, rfl, by decide⟩

/-- Joined in both orders, the texts admit the same versions. -/
def JoinedAlike (options : ParseOptions) (first second : String) : Prop :=
  ∀ firstRange secondRange forth back, parse options first = .ok firstRange →
    parse options second = .ok secondRange → parse options (first ++ "||" ++ second) = .ok forth →
      parse options (second ++ "||" ++ first) = .ok back →
        ∀ v, Version.checked v = .ok v → forth.includes v = back.includes v

/-- The order shows with prereleases included, and also without. -/
theorem not_joinedAlike_of_star :
    ¬JoinedAlike ⟨true⟩ "*" ">=0.0.0" ∧ ¬JoinedAlike ⟨false⟩ "*" ">=0.0.0-0" := by
  have below : Version.checked ⟨0, 0, 0, [.word "alpha"], []⟩ =
      .ok ⟨0, 0, 0, [.word "alpha"], []⟩ := rfl
  constructor
  · intro alike
    have same := alike _ _ _ _ rfl rfl rfl rfl _ below
    revert same
    decide
  · intro alike
    have same := alike _ _ _ _ rfl rfl rfl rfl _ below
    revert same
    decide

section Included

theorem included_of_stamped {group : List Comparator} (stamped : ∀ c ∈ group, c.Stamped ⟨true⟩) :
    ∀ c ∈ group, c.options.includePrerelease = true := by
  intro c inside
  rw [(stamped c inside).options_eq]

theorem groupIncludes_single_of_included {c : Comparator} (stamped : c.Stamped ⟨true⟩)
    (inclusive : c.isAllInclusive = true) {v : Version} (built : Version.checked v = .ok v) :
    groupIncludes [c] v = true ↔ ¬(v.BelowZero ∧ c.admitsBelowZero = false) := by
  by_cases below : v.BelowZero
  · rw [groupIncludes_of_belowZero inclusive built below]
    simp [below]
  · rw [groupIncludes_of_not_belowZero inclusive built below, stamped.options_eq]
    simp [below]

/-- With prereleases included, an all-inclusive group admits all but what one of its
comparators refuses below zero. -/
theorem groupIncludes_of_included {group : List Comparator}
    (stamped : ∀ c ∈ group, c.Stamped ⟨true⟩) (all : ∀ c ∈ group, c.isAllInclusive = true)
    {v : Version} (built : Version.checked v = .ok v) :
    groupIncludes group v = true ↔ ¬(v.BelowZero ∧ ∃ c ∈ group, c.admitsBelowZero = false) := by
  have accepts (c : Comparator) (inside : c ∈ group) :
      c.accepts v = true ↔ ¬(v.BelowZero ∧ c.admitsBelowZero = false) := by
    have alone : ∀ d ∈ [c], d.Stamped ⟨true⟩ := by simpa using stamped c inside
    rw [← groupIncludes_single_of_included (stamped c inside) (all c inside) built,
      groupIncludes_iff_of_included (included_of_stamped alone), List.forall_mem_singleton]
  rw [groupIncludes_iff_of_included (included_of_stamped stamped)]
  constructor
  · rintro each ⟨below, c, inside, refuses⟩
    exact (accepts c inside).mp (each c inside) ⟨below, refuses⟩
  · intro none c inside
    exact (accepts c inside).mpr fun ⟨below, refuses⟩ => none ⟨below, c, inside, refuses⟩

theorem includes_iff_of_inclusive {text : String} {range : Range}
    (read : parse ⟨true⟩ text = .ok range) (inclusive : range.Inclusive) {v : Version}
    (built : Version.checked v = .ok v) :
    range.includes v = true ↔ ¬(v.BelowZero ∧ range.RefusesBelowZero) := by
  obtain ⟨c, single, inclusive⟩ := inclusive
  have stamped := stamped_of_parse read [c] (by simp [single]) c (by simp)
  rw [includes_of_single single, refusesBelowZero_iff_of_single single inclusive,
    groupIncludes_single_of_included stamped inclusive built]

theorem not_exclusive_of_hasGroup {text : String} {range : Range}
    (read : parse ⟨true⟩ text = .ok range)
    (none : ∀ group, HasGroup ⟨true⟩ text group → ∀ c ∈ group, c.isAllExclusive = false) :
    ¬range.Exclusive := by
  rintro ⟨c, single, exclusive⟩
  obtain ⟨found, has, inside⟩ := exists_hasGroup_of_parse read
    (show [c] ∈ range.groups by simp [single]) List.mem_cons_self
  rw [none found has c inside] at exclusive
  cases exclusive

/-- With prereleases included, joined texts without an all-exclusive comparator admit what
either admits, except that what an all-inclusive comparator refuses below zero is refused if
they come down to it. -/
theorem joined_admits_either_above_zero {first second : String} {firstRange secondRange : Range}
    (firstRead : parse ⟨true⟩ first = .ok firstRange)
    (secondRead : parse ⟨true⟩ second = .ok secondRange)
    (none : ∀ group, HasGroup ⟨true⟩ first group ∨ HasGroup ⟨true⟩ second group →
      ∀ c ∈ group, c.isAllExclusive = false) :
    ∃ range, parse ⟨true⟩ (first ++ "||" ++ second) = .ok range ∧
      ∀ v : Version, v.Ranked →
        (range.includes v = true ↔ (firstRange.includes v = true ∨ secondRange.includes v = true) ∧
          ¬(v.BelowZero ∧ range.RefusesBelowZero)) ∧
        ∀ group, HasGroup ⟨true⟩ (first ++ "||" ++ second) group →
          (∀ c ∈ group, c.isAllInclusive = true) →
            (groupIncludes group v = true ↔
              ¬(v.BelowZero ∧ ∃ c ∈ group, c.admitsBelowZero = false)) := by
  obtain ⟨range, read, joined⟩ := exists_joined firstRead secondRead
  refine ⟨range, read, fun v ranked => ⟨?_, fun group has all => ?_⟩⟩
  · by_cases firstInclusive : firstRange.Inclusive
    · obtain rfl := joined.ofFirst firstInclusive
      rw [includes_iff_of_inclusive firstRead firstInclusive ranked.passed]
      tauto
    by_cases secondInclusive : secondRange.Inclusive
    · obtain rfl := joined.ofSecond firstInclusive secondInclusive
      rw [includes_iff_of_inclusive secondRead secondInclusive ranked.passed]
      tauto
    obtain ⟨notInclusive, admits⟩ := joined.ofEither firstInclusive secondInclusive
    have firstOrdinary := not_exclusive_of_hasGroup firstRead fun group has => none group (.inl has)
    have secondOrdinary :=
      not_exclusive_of_hasGroup secondRead fun group has => none group (.inr has)
    have admitting : ¬(v.BelowZero ∧ range.RefusesBelowZero) := by
      rintro ⟨-, c, single, inclusive, -⟩
      exact notInclusive ⟨c, single, inclusive⟩
    rw [admits v, and_iff_right ⟨firstOrdinary, secondOrdinary⟩, and_iff_left admitting]
  · obtain ⟨part, -, groupRead⟩ := has
    exact groupIncludes_of_included (Group.stamped_of_parse groupRead) all ranked.passed

/-- A wildcard beside a lower bound: they come down to the wildcard, which admits all. -/
theorem joined_admits_either_above_zero_of_star :
    ∃ range, parse ⟨true⟩ "*||>=0.0.0" = .ok range ∧
      range.includes ⟨0, 0, 0, [.word "a"], []⟩ = true := by
  have star : parse ⟨true⟩ "*" = .ok ⟨[[.any ⟨true⟩]]⟩ := rfl
  have zero : parse ⟨true⟩ ">=0.0.0" =
      .ok ⟨[[.exact .greaterEqual (.release 0 0 0) ⟨true⟩]]⟩ := rfl
  have starGroup (group : List Comparator) : HasGroup ⟨true⟩ "*" group ↔ group = [.any ⟨true⟩] :=
    hasGroup_iff_of_single rfl rfl
  have zeroGroup (group : List Comparator) : HasGroup ⟨true⟩ ">=0.0.0" group ↔
      group = [.exact .greaterEqual (.release 0 0 0) ⟨true⟩] :=
    hasGroup_iff_of_single rfl rfl
  obtain ⟨range, read, admits⟩ := joined_admits_either_above_zero star zero (by
    simp only [starGroup, zeroGroup, forall_eq_or_imp, forall_eq]
    decide)
  have below : Version.parse "0.0.0-a" = .ok ⟨0, 0, 0, [.word "a"], []⟩ := rfl
  obtain ⟨either, -⟩ := admits _ (Version.ranked_of_parse below)
  have first : parse ⟨true⟩ "*||>=0.0.0" = .ok ⟨[[.any ⟨true⟩]]⟩ := rfl
  obtain rfl := Except.ok.inj (read.symm.trans first)
  refine ⟨_, first, either.mpr ⟨.inl rfl, ?_⟩⟩
  rintro ⟨-, c, single, -, refuses⟩
  cases single
  cases refuses

/-- A lower bound in front of a wildcard refuses what the wildcard admits alone. -/
theorem not_joined_admits_either_of_star :
    ∃ firstRange secondRange range, parse ⟨true⟩ ">=0.0.0" = .ok firstRange ∧
      parse ⟨true⟩ "*" = .ok secondRange ∧ parse ⟨true⟩ (">=0.0.0" ++ "||" ++ "*") = .ok range ∧
        (∀ group, HasGroup ⟨true⟩ ">=0.0.0" group ∨ HasGroup ⟨true⟩ "*" group →
          ∀ c ∈ group, c.isAllExclusive = false) ∧
        ∃ v, Version.checked v = .ok v ∧ v.isPrerelease = true ∧
          secondRange.includes v = true ∧ range.includes v = false := by
  have zeroGroup (group : List Comparator) : HasGroup ⟨true⟩ ">=0.0.0" group ↔
      group = [.exact .greaterEqual (.release 0 0 0) ⟨true⟩] :=
    hasGroup_iff_of_single rfl rfl
  have starGroup (group : List Comparator) : HasGroup ⟨true⟩ "*" group ↔ group = [.any ⟨true⟩] :=
    hasGroup_iff_of_single rfl rfl
  refine ⟨_, _, _, rfl, rfl, rfl, ?_, ⟨0, 0, 0, [.word "alpha"], []⟩, rfl, rfl, rfl, rfl⟩
  simp only [zeroGroup, starGroup, forall_eq_or_imp, forall_eq]
  decide

end Included

end Range

end VersionRange
