import VersionRange.Proofs.Gate
import VersionRange.Proofs.Group.Expansion
import VersionRange.Proofs.Simplification
import VersionRange.Proofs.Version.Bounds

/-!
# Degenerate comparators

An all-inclusive comparator accepts every release, and an all-exclusive one accepts no
version at all.  So groups that come down to one comparator admit the same releases as
before, unless they come down to an all-exclusive comparator, which leaves no version.
-/

namespace VersionRange

namespace Comparator

theorem interchangeable_cases {c d : Comparator} (same : c.interchangeable d = true) :
    (∃ own, c = any own ∧ d = any own) ∨
      ∃ op v w own, c = exact op v own ∧ d = exact op w own ∧ v.main = w.main ∧
        v.prerelease = w.prerelease := by
  cases c with
  | any own =>
      cases d with
      | any other =>
          simp only [interchangeable, beq_iff_eq] at same
          exact .inl ⟨own, rfl, by rw [same]⟩
      | exact op w other => cases same
  | exact op v own =>
      cases d with
      | any other => cases same
      | exact op' w other =>
          simp only [interchangeable, Version.interchangeable, Bool.and_eq_true,
            beq_iff_eq] at same
          obtain ⟨⟨rfl, ⟨-, main⟩, prerelease⟩, rfl⟩ := same
          exact .inr ⟨op, v, w, own, rfl, rfl, main, prerelease⟩

theorem isAllInclusive_eq_of_interchangeable {c d : Comparator}
    (same : c.interchangeable d = true) : c.isAllInclusive = d.isAllInclusive := by
  rcases interchangeable_cases same with
    ⟨own, rfl, rfl⟩ | ⟨op, v, w, own, rfl, rfl, main, prerelease⟩
  · rfl
  · simp only [isAllInclusive, main, prerelease]

theorem isAllExclusive_eq_of_interchangeable {c d : Comparator}
    (same : c.interchangeable d = true) : c.isAllExclusive = d.isAllExclusive := by
  rcases interchangeable_cases same with
    ⟨own, rfl, rfl⟩ | ⟨op, v, w, own, rfl, rfl, main, prerelease⟩
  · rfl
  · have outcome : v.compare .lowest = w.compare .lowest :=
      Version.compare_congr main prerelease rfl rfl
    simp only [isAllExclusive, Version.sameRank, outcome]

theorem accepts_eq_of_interchangeable {c d : Comparator} (same : c.interchangeable d = true)
    (v : Version) : c.accepts v = d.accepts v := by
  rcases interchangeable_cases same with
    ⟨own, rfl, rfl⟩ | ⟨op, target, other, own, rfl, rfl, main, prerelease⟩
  · rfl
  · have outcome : v.compare target = v.compare other :=
      Version.compare_congr rfl rfl main prerelease
    rw [accepts, accepts, outcome]

theorem accepts_of_isAllInclusive {c : Comparator} (inclusive : c.isAllInclusive = true)
    {v : Version} (release : v.isPrerelease = false) : c.accepts v = true := by
  cases c with
  | any own => rfl
  | exact op target own =>
      simp only [isAllInclusive, Bool.and_eq_true, beq_iff_eq, Version.main,
        Prod.mk.injEq] at inclusive
      obtain ⟨⟨rfl, major, minor, patch⟩, -⟩ := inclusive
      have notLower : v.compare target ≠ .lt := by
        rw [ne_eq, Version.compare_eq_lt_iff_of_release release, Version.LowerMain]
        omega
      cases outcome : v.compare target with
      | lt => exact absurd outcome notLower
      | eq | gt => simp [accepts, Operator.test, outcome]

/-- The target of an all-exclusive comparator is the lowest version up to its build. -/
theorem not_accepts_of_isAllExclusive {options : ParseOptions} {c : Comparator}
    (stamped : c.Stamped options) (exclusive : c.isAllExclusive = true) (v : Version) :
    c.accepts v = false := by
  cases c with
  | any own => cases exclusive
  | exact op target own =>
      simp only [isAllExclusive, Version.sameRank, Bool.and_eq_true, beq_iff_eq] at exclusive
      obtain ⟨rfl, same⟩ := exclusive
      rw [Version.compare_eq_rank stamped.1 Version.readable_lowest,
        Version.rank_eq_eq_iff] at same
      have outcome : v.compare target = v.compare .lowest :=
        Version.compare_congr rfl rfl same.1 same.2
      have notLower := Version.compare_lowest_ne_lt v
      rw [accepts, outcome]
      cases lowest : v.compare .lowest with
      | lt => exact absurd lowest notLower
      | eq | gt => rfl

end Comparator

namespace Range

theorem groupIncludes_of_release {group : List Comparator} {v : Version}
    (release : v.isPrerelease = false) :
    groupIncludes group v = true ↔ ∀ c ∈ group, c.accepts v = true :=
  groupIncludes_iff_of_gateOpen (.inl release)

theorem not_includes_of_isAllExclusive {options : ParseOptions} {c : Comparator}
    (stamped : c.Stamped options) (exclusive : c.isAllExclusive = true) {range : Range}
    (single : range.groups = [[c]]) (v : Version) : range.includes v = false := by
  simp [includes, single, groupIncludes, Comparator.includes,
    Comparator.not_accepts_of_isAllExclusive stamped exclusive v]

/-- Without all-exclusive comparators simplification keeps the releases that are admitted. -/
theorem includes_iff_of_simplify {groups : List (List Comparator)} {range : Range}
    {record : Option JournalRecord} (simplified : simplify groups = .ok (range, record))
    (none : ∀ c ∈ groups.flatten, c.isAllExclusive = false) {v : Version}
    (release : v.isPrerelease = false) :
    range.includes v = true ↔ ∃ group ∈ groups, groupIncludes group v = true := by
  rcases simplify_outcomes simplified with
    ⟨group, member, all, c, inside, single⟩ | ⟨-, c, inside, exclusive, -⟩ | ⟨same, -⟩
  · have whole : groupIncludes group v = true :=
      (groupIncludes_of_release release).mpr fun d among =>
        Comparator.accepts_of_isAllInclusive (all d among) release
    have alone : groupIncludes [c] v = true :=
      (groupIncludes_of_release release).mpr fun d among => by
        rw [List.mem_singleton] at among
        subst among
        exact Comparator.accepts_of_isAllInclusive (all d inside) release
    exact iff_of_true (by simp [includes, single, alone]) ⟨group, member, whole⟩
  · rw [none c inside] at exclusive
    cases exclusive
  · rw [includes, same, List.any_eq_true]

end Range

end VersionRange
