import VersionRange.Proofs.Degenerate
import VersionRange.Proofs.Version.Built

/-!
# What all-inclusive comparators admit

The comparators `*`, `>=0.0.0` and `>=0.0.0-0` count as the same when ranges are simplified,
and on releases they are.  They differ on the prereleases of `0.0.0`, which are below the
release: there the first goes by the options, the second admits none, and the third, whose
target unlocks them, admits them all.
-/

namespace VersionRange

/-- The prereleases of `0.0.0`. -/
def Version.BelowZero (v : Version) : Prop :=
  v.isPrerelease = true ∧ v.main = (0, 0, 0)

/-- Whether an all-inclusive comparator admits the prereleases of `0.0.0`. -/
def Comparator.admitsBelowZero : Comparator → Bool
  | any options => options.includePrerelease
  | exact _ target _ => target.isPrerelease

namespace Comparator

variable {v : Version}

theorem isAllInclusive_cases {c : Comparator} (inclusive : c.isAllInclusive = true) :
    (∃ own, c = any own) ∨
      ∃ target own, c = exact .greaterEqual target own ∧ target.main = (0, 0, 0) ∧
        (target.prerelease = [] ∨ target.prerelease = [.numeric 0]) := by
  cases c with
  | any own => exact .inl ⟨own, rfl⟩
  | exact op target own =>
      simp only [isAllInclusive, Bool.and_eq_true, Bool.or_eq_true, beq_iff_eq] at inclusive
      obtain ⟨⟨rfl, zero⟩, prerelease⟩ := inclusive
      exact .inr ⟨target, own, rfl, zero, prerelease⟩

theorem accepts_greaterEqual_iff {target : Version} {own : ParseOptions} :
    (exact .greaterEqual target own).accepts v = true ↔ v.compare target ≠ .lt := by
  rw [accepts, Operator.test_iff]

theorem accepts_zero_iff (built : Version.checked v = .ok v) {target : Version}
    (zero : target.main = (0, 0, 0)) (release : target.prerelease = []) (own : ParseOptions) :
    (exact .greaterEqual target own).accepts v = true ↔ ¬v.BelowZero := by
  have notLower : ¬v.LowerMain target := by
    simp only [Version.main, Prod.mk.injEq] at zero
    simp only [Version.LowerMain]
    omega
  have ranked : v.rankedPrerelease ≠ [] ↔ v.isPrerelease = true :=
    ⟨Version.isPrerelease_of_rankedPrerelease_ne_nil,
      Version.rankedPrerelease_ne_nil_of_checked built⟩
  have outcome := Version.compare_release_eq_lt_iff (v := v)
    (Version.isPrerelease_eq_false_iff.mpr release)
  rw [accepts_greaterEqual_iff, ne_eq, outcome, or_iff_right notLower, ranked, zero,
    Version.BelowZero, and_comm]

theorem accepts_lowest {target : Version} {own : ParseOptions} (zero : target.main = (0, 0, 0))
    (lowest : target.prerelease = [.numeric 0]) :
    (exact .greaterEqual target own).accepts v = true := by
  have outcome : v.compare target = v.compare .lowest :=
    Version.compare_congr rfl rfl zero lowest
  rw [accepts_greaterEqual_iff, outcome]
  exact Version.compare_lowest_ne_lt v

end Comparator

namespace Range

theorem groupIncludes_single_iff {c : Comparator} {v : Version} :
    groupIncludes [c] v = true ↔
      (v.isPrerelease = false ∨ c.options.includePrerelease = true ∨ c.unlocks v = true) ∧
        c.accepts v = true := by
  simp only [groupIncludes, Comparator.includes, Comparator.passesGate, List.all_cons,
    List.all_nil, List.any_cons, List.any_nil, Bool.and_true, Bool.or_false, Bool.and_eq_true,
    Bool.or_eq_true, Bool.not_eq_true']
  tauto

section Inclusive

variable {c : Comparator} {v : Version}

theorem unlocks_lowest_iff {target : Version} (zero : target.main = (0, 0, 0))
    (prerelease : target.isPrerelease = true) (own : ParseOptions) :
    (Comparator.exact .greaterEqual target own).unlocks v = true ↔ v.main = (0, 0, 0) := by
  rw [Comparator.unlocks, prerelease, zero, Bool.true_and, beq_iff_eq]
  exact eq_comm

/-- The form of an all-inclusive comparator decides over the prereleases of `0.0.0`. -/
theorem groupIncludes_of_belowZero (inclusive : c.isAllInclusive = true)
    (built : Version.checked v = .ok v) (below : v.BelowZero) :
    groupIncludes [c] v = true ↔ c.admitsBelowZero = true := by
  rw [groupIncludes_single_iff]
  rcases Comparator.isAllInclusive_cases inclusive with
    ⟨own, rfl⟩ | ⟨target, own, rfl, zero, release | lowest⟩
  · simp [Comparator.accepts, Comparator.unlocks, Comparator.options,
      Comparator.admitsBelowZero, below.1]
  · have refused := (Comparator.accepts_zero_iff built zero release own).not_left.mpr below
    have plain : target.isPrerelease = false := Version.isPrerelease_eq_false_iff.mpr release
    simp [Comparator.admitsBelowZero, plain, refused]
  · have prerelease : target.isPrerelease = true := by simp [Version.isPrerelease, lowest]
    have unlocked := (unlocks_lowest_iff zero prerelease own).mpr below.2
    simp [Comparator.admitsBelowZero, prerelease, unlocked, Comparator.accepts_lowest zero lowest]

/-- Above them the form of an all-inclusive comparator does not matter. -/
theorem groupIncludes_of_not_belowZero (inclusive : c.isAllInclusive = true)
    (built : Version.checked v = .ok v) (above : ¬v.BelowZero) :
    groupIncludes [c] v = true ↔
      v.isPrerelease = false ∨ c.options.includePrerelease = true := by
  rw [groupIncludes_single_iff]
  rcases Comparator.isAllInclusive_cases inclusive with
    ⟨own, rfl⟩ | ⟨target, own, rfl, zero, release | lowest⟩
  · simp [Comparator.accepts, Comparator.unlocks]
  · have accepted := (Comparator.accepts_zero_iff built zero release own).mpr above
    have plain : target.isPrerelease = false := Version.isPrerelease_eq_false_iff.mpr release
    simp [Comparator.unlocks, plain, accepted]
  · have prerelease : target.isPrerelease = true := by simp [Version.isPrerelease, lowest]
    rw [unlocks_lowest_iff zero prerelease, and_iff_left (Comparator.accepts_lowest zero lowest)]
    -- A prerelease that the target unlocks would be one of `0.0.0`.
    have unlocksRelease (same : v.main = (0, 0, 0)) : v.isPrerelease = false := by
      by_contra gated
      exact above ⟨by simpa using gated, same⟩
    tauto

end Inclusive

end Range

end VersionRange
