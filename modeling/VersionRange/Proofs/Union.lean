import VersionRange.Proofs.Canonical
import VersionRange.Proofs.Degenerate

/-!
# Joining range texts

Two range texts with double bars between them are a range text again, whose groups are
the groups of both.  It admits the releases that either of them admits, except that one
all-exclusive comparator anywhere leaves nothing, unless some group admits everything.
-/

namespace VersionRange

open Fallible

namespace Range

section Groups

variable {options : ParseOptions} {text : String} {groups : List (List Comparator)}

theorem distinctBy_mem_of_hasGroup
    (read : parseGroups options (splitGroups text.toList) = .ok groups)
    {found : List Comparator} (has : HasGroup options text found) :
    distinctBy Comparator.interchangeable found ∈ groups := by
  obtain ⟨part, among, groupRead⟩ := has
  exact mem_of_mapM read among (map_eq_ok_iff.mpr ⟨found, groupRead, rfl⟩)

theorem not_isAllExclusive_of_groups
    (read : parseGroups options (splitGroups text.toList) = .ok groups)
    (none : ∀ group, HasGroup options text group → ∀ c ∈ group, c.isAllExclusive = false) :
    ∀ c ∈ groups.flatten, c.isAllExclusive = false := by
  intro c inside
  obtain ⟨group, member, among⟩ := List.mem_flatten.mp inside
  obtain ⟨found, has, rfl⟩ := exists_hasGroup read member
  exact none found has c ((distinctBy_sublist found).subset among)

theorem exists_isAllExclusive_of_hasGroup
    (read : parseGroups options (splitGroups text.toList) = .ok groups)
    {found : List Comparator} (has : HasGroup options text found)
    (some : ∃ c ∈ found, c.isAllExclusive = true) :
    ∃ c ∈ groups.flatten, c.isAllExclusive = true := by
  have respects (c d : Comparator) (same : c.interchangeable d = true) :
      c.isAllExclusive = true ↔ d.isAllExclusive = true := by
    rw [Comparator.isAllExclusive_eq_of_interchangeable same]
  obtain ⟨c, staying, exclusive⟩ := (exists_mem_distinctBy respects).mpr some
  have member := distinctBy_mem_of_hasGroup read has
  exact ⟨c, List.mem_flatten.mpr ⟨_, member, staying⟩, exclusive⟩

theorem exists_not_isAllInclusive_of_groups
    (read : parseGroups options (splitGroups text.toList) = .ok groups)
    (each : ∀ group, HasGroup options text group → ∃ c ∈ group, c.isAllInclusive = false) :
    ∀ group ∈ groups, ∃ c ∈ group, c.isAllInclusive = false := by
  have respects (c d : Comparator) (same : c.interchangeable d = true) :
      c.isAllInclusive = false ↔ d.isAllInclusive = false := by
    rw [Comparator.isAllInclusive_eq_of_interchangeable same]
  intro group member
  obtain ⟨found, has, rfl⟩ := exists_hasGroup read member
  exact (exists_mem_distinctBy respects).mpr (each found has)

/-- One all-exclusive comparator leaves nothing if no group admits every version. -/
theorem not_includes_of_exclusive {range : Range} {record : Option JournalRecord}
    (read : parseGroups options (splitGroups text.toList) = .ok groups)
    (simplified : simplify groups = .ok (range, record))
    (some : ∃ c ∈ groups.flatten, c.isAllExclusive = true)
    (each : ∀ group ∈ groups, ∃ c ∈ group, c.isAllInclusive = false) (v : Version) :
    range.includes v = false := by
  rcases simplify_outcomes simplified with
    ⟨group, member, all, -⟩ | ⟨-, c, inside, exclusive, single⟩ | ⟨-, irreducible⟩
  · obtain ⟨c, inside, notInclusive⟩ := each group member
    rw [all c inside] at notInclusive
    cases notInclusive
  · obtain ⟨group, member, among⟩ := List.mem_flatten.mp inside
    have stamped := stamped_of_parseGroups read member c among
    exact not_includes_of_isAllExclusive stamped exclusive single v
  · obtain ⟨c, inside, exclusive⟩ := some
    obtain ⟨group, member, among⟩ := List.mem_flatten.mp inside
    rw [(irreducible group member).2 c among] at exclusive
    cases exclusive

end Groups

/-- Groups that can be simplified apart can be simplified together. -/
theorem simplify_append {first second : List (List Comparator)}
    {firstResult secondResult : Range × Option JournalRecord}
    (firstSimplified : simplify first = .ok firstResult)
    (secondSimplified : simplify second = .ok secondResult) :
    ∃ range record, simplify (first ++ second) = .ok (range, record) := by
  cases outcome : simplify (first ++ second) with
  | ok result => exact ⟨result.1, result.2, rfl⟩
  | error fault =>
      exfalso
      have clear {groups : List (List Comparator)} {result : Range × Option JournalRecord}
          (simplified : simplify groups = .ok result) :
          ¬Preceded (· = []) (fun group => ∃ c ∈ group, c.isAllInclusive = false) groups := by
        intro stumbles
        have fails := simplify_eq_error_iff.mpr (allInclusive?_eq_error_iff.mpr ⟨rfl, stumbles⟩)
        rw [simplified] at fails
        cases fails
      have stumbles := (allInclusive?_eq_error_iff.mp (simplify_eq_error_iff.mp outcome)).2
      rcases preceded_append.mp stumbles with inFirst | ⟨-, inSecond⟩
      · exact clear firstSimplified inFirst
      · exact clear secondSimplified inSecond

section Joined

variable {options : ParseOptions} {first second : String}

theorem splitGroups_joined {groups : List (List Comparator)}
    (read : parseGroups options (splitGroups first.toList) = .ok groups) (second : String) :
    splitGroups (first ++ "||" ++ second).toList =
      splitGroups first.toList ++ splitGroups second.toList := by
  have whole : (first ++ "||" ++ second).toList = first.toList ++ '|' :: '|' :: second.toList := by
    simp
  rw [whole, splitGroups_append (bar_not_mem_of_parseGroups read)]

/-- Texts that are read are read joined as well.  Joined they admit the releases that
either admits, provided that no comparator is all-exclusive; with an all-exclusive
comparator and without a group that admits everything they admit nothing. -/
theorem joined_admits_either {firstRange secondRange : Range}
    (firstRead : parse options first = .ok firstRange)
    (secondRead : parse options second = .ok secondRange) :
    ∃ range, parse options (first ++ "||" ++ second) = .ok range ∧
      ((∀ group, HasGroup options first group ∨ HasGroup options second group →
          ∀ c ∈ group, c.isAllExclusive = false) →
        ∀ v : Version, v.isPrerelease = false →
          (range.includes v = true ↔
            firstRange.includes v = true ∨ secondRange.includes v = true)) ∧
      ((∃ group, (HasGroup options first group ∨ HasGroup options second group) ∧
          ∃ c ∈ group, c.isAllExclusive = true) →
        (∀ group, HasGroup options first group ∨ HasGroup options second group →
          ∃ c ∈ group, c.isAllInclusive = false) →
        ∀ v : Version, range.includes v = false) := by
  obtain ⟨firstGroups, firstRecord, firstGroupsRead, firstSimplified⟩ :=
    parse_eq_ok_iff.mp firstRead
  obtain ⟨secondGroups, secondRecord, secondGroupsRead, secondSimplified⟩ :=
    parse_eq_ok_iff.mp secondRead
  obtain ⟨range, record, simplified⟩ := simplify_append firstSimplified secondSimplified
  have parts := splitGroups_joined firstGroupsRead second
  have groupsRead := parseGroups_append firstGroupsRead secondGroupsRead
  rw [← parts] at groupsRead
  have has (group : List Comparator) : HasGroup options (first ++ "||" ++ second) group ↔
      HasGroup options first group ∨ HasGroup options second group := by
    simp only [HasGroup, parts, List.mem_append, or_and_right, exists_or]
  simp only [← has]
  refine ⟨range, parse_eq_ok_iff.mpr ⟨_, record, groupsRead, simplified⟩, ?_, ?_⟩
  · intro none v release
    have notExclusive := not_isAllExclusive_of_groups groupsRead none
    rw [List.flatten_append, List.forall_mem_append] at notExclusive
    rw [includes_iff_of_simplify simplified (not_isAllExclusive_of_groups groupsRead none) release,
      includes_iff_of_simplify firstSimplified notExclusive.1 release,
      includes_iff_of_simplify secondSimplified notExclusive.2 release]
    simp only [List.mem_append, or_and_right, exists_or]
  · rintro ⟨found, hasFound, some⟩ each v
    have exclusive := exists_isAllExclusive_of_hasGroup groupsRead hasFound some
    have notInclusive := exists_not_isAllInclusive_of_groups groupsRead each
    exact not_includes_of_exclusive groupsRead simplified exclusive notInclusive v

/-- Two major numbers, of which either will do, and a major number beside nothing at all. -/
theorem joined_admits_either_of_majors :
    (∃ range, parse {} "1.x||2.x" = .ok range ∧ range.includes (.release 2 5 0) = true) ∧
      ∃ range, parse {} "1.x||<*" = .ok range ∧ ∀ v : Version, range.includes v = false := by
  have one : parse {} "1.x" = .ok ⟨[Group.between {} (.release 1 0 0) (.release 2 0 0)]⟩ := rfl
  have two : parse {} "2.x" = .ok ⟨[Group.between {} (.release 2 0 0) (.release 3 0 0)]⟩ := rfl
  have nothing : parse {} "<*" = .ok ⟨[[.exact .less .lowest {}]]⟩ := rfl
  have oneGroup (group : List Comparator) : HasGroup {} "1.x" group ↔
      group = Group.between {} (.release 1 0 0) (.release 2 0 0) :=
    hasGroup_iff_of_single rfl rfl
  have twoGroup (group : List Comparator) : HasGroup {} "2.x" group ↔
      group = Group.between {} (.release 2 0 0) (.release 3 0 0) :=
    hasGroup_iff_of_single rfl rfl
  have nothingGroup (group : List Comparator) : HasGroup {} "<*" group ↔
      group = [.exact .less .lowest {}] :=
    hasGroup_iff_of_single rfl rfl
  constructor
  · obtain ⟨range, read, either, -⟩ := joined_admits_either one two
    refine ⟨range, read, (either ?_ _ rfl).mpr (.inr rfl)⟩
    simp only [oneGroup, twoGroup, forall_eq_or_imp, forall_eq]
    decide
  · obtain ⟨range, read, -, empty⟩ := joined_admits_either one nothing
    refine ⟨range, read, empty ?_ ?_⟩
    · exact ⟨_, .inr ((nothingGroup _).mpr rfl), by decide⟩
    · simp only [oneGroup, nothingGroup, forall_eq_or_imp, forall_eq]
      decide

end Joined

end Range

end VersionRange
