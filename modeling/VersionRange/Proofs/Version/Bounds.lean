import VersionRange.Proofs.Version.Rank

/-!
# Versions below a bound

What it takes for a version to be below a bound: its three numbers are lower, or they are
the same and its prerelease is lower.  Below a release that leaves the versions with lower
numbers and the prereleases of the release itself, and below the lowest version it leaves
nothing.  None of this needs versions that come from a text.
-/

namespace VersionRange

namespace Version

/-- The three numbers of `a` are lower than those of `b`, from left to right. -/
def LowerMain (a b : Version) : Prop :=
  a.major < b.major ∨
    a.major = b.major ∧ (a.minor < b.minor ∨ a.minor = b.minor ∧ a.patch < b.patch)

theorem compare_eq_lt_iff {a b : Version} :
    a.compare b = .lt ↔
      a.LowerMain b ∨ a.main = b.main ∧
        comparePrereleaseTexts a.rankedPrerelease b.rankedPrerelease = .lt := by
  simp only [compare, Ordering.then_eq_lt, Ordering.then_eq_eq, Nat.compare_eq_lt,
    Nat.compare_eq_eq, LowerMain, main, Prod.mk.injEq]

/-- The build has no part in the comparison, on either side. -/
theorem compare_congr {a a' b b' : Version} (mainLeft : a.main = a'.main)
    (left : a.prerelease = a'.prerelease) (mainRight : b.main = b'.main)
    (right : b.prerelease = b'.prerelease) : a.compare b = a'.compare b' := by
  simp only [main, Prod.mk.injEq] at mainLeft mainRight
  simp only [compare, rankedPrerelease, prereleaseChars, left, right, mainLeft, mainRight]

theorem isPrerelease_eq_false_iff {v : Version} :
    v.isPrerelease = false ↔ v.prerelease = [] := by
  simp [isPrerelease]

theorem rankedPrerelease_of_release {v : Version} (release : v.isPrerelease = false) :
    v.rankedPrerelease = [] := by
  have none := isPrerelease_eq_false_iff.mp release
  simp [rankedPrerelease, prereleaseChars, none, dotted]

theorem isPrerelease_of_rankedPrerelease_ne_nil {v : Version}
    (ranked : v.rankedPrerelease ≠ []) : v.isPrerelease = true := by
  by_contra release
  exact ranked (rankedPrerelease_of_release (by simpa using release))

theorem rankedPrerelease_ne_nil {v : Version} (readable : v.Readable)
    (prerelease : v.isPrerelease = true) : v.rankedPrerelease ≠ [] := by
  have written := isEmpty_rankedPrerelease readable
  rw [prerelease] at written
  simpa using written

theorem comparePrereleaseTexts_nil_left (text : List Char) :
    comparePrereleaseTexts [] text ≠ .lt := by
  cases text <;> simp [comparePrereleaseTexts]

theorem comparePrereleaseTexts_nil_right {text : List Char} :
    comparePrereleaseTexts text [] = .lt ↔ text ≠ [] := by
  cases text <;> simp [comparePrereleaseTexts]

/-- No written prerelease is below a single zero. -/
theorem comparePrereleaseTexts_zero (text : List Char) :
    comparePrereleaseTexts text ['0'] ≠ .lt := by
  cases text with
  | nil => exact comparePrereleaseTexts_nil_left ['0']
  | cons c rest =>
      -- A first piece that is no number ranks above the zero, and a number is at least zero.
      have single : ['0'].splitOn '.' = [['0']] := by decide
      obtain ⟨piece, others, pieces⟩ :=
        List.exists_cons_of_ne_nil (List.splitOn_ne_nil '.' (c :: rest))
      have facing : comparePieces piece ['0'] ≠ .lt := by
        have zero : digitsValue ['0'] = 0 := rfl
        cases left : !piece.isEmpty && piece.all Char.isDigit with
        | false => simp [comparePieces, left]
        | true => simp [comparePieces, left, zero, Nat.compare_eq_lt]
      simp only [comparePrereleaseTexts, List.isEmpty_cons, single, pieces, compareFacing]
      intro lower
      rw [Ordering.then_eq_lt] at lower
      rcases lower with first | ⟨-, shorter⟩
      · rw [Ordering.then_eq_lt] at first
        rcases first with below | ⟨-, never⟩
        · exact facing below
        · cases never
      · simp [Nat.compare_eq_lt] at shorter

/-- The versions that are below a release. -/
theorem compare_release_eq_lt_iff {v bound : Version} (release : bound.isPrerelease = false) :
    v.compare bound = .lt ↔
      v.LowerMain bound ∨ v.main = bound.main ∧ v.rankedPrerelease ≠ [] := by
  rw [compare_eq_lt_iff, rankedPrerelease_of_release release, comparePrereleaseTexts_nil_right]

theorem lowerMain_or_prerelease_of_compare {v bound : Version}
    (release : bound.isPrerelease = false) (below : v.compare bound = .lt) :
    v.LowerMain bound ∨ v.isPrerelease = true ∧ v.main = bound.main := by
  rcases (compare_release_eq_lt_iff release).mp below with lower | ⟨same, ranked⟩
  · exact .inl lower
  · exact .inr ⟨isPrerelease_of_rankedPrerelease_ne_nil ranked, same⟩

theorem compare_lt_of_prerelease {v bound : Version} (release : bound.isPrerelease = false)
    (readable : v.Readable) (prerelease : v.isPrerelease = true) (same : v.main = bound.main) :
    v.compare bound = .lt :=
  (compare_release_eq_lt_iff release).mpr (.inr ⟨same, rankedPrerelease_ne_nil readable prerelease⟩)

theorem compare_ne_lt_of_main_eq {v lower upper : Version} (raised : lower.LowerMain upper)
    (same : v.main = upper.main) : v.compare lower ≠ .lt := by
  simp only [main, Prod.mk.injEq] at same
  intro below
  rcases compare_eq_lt_iff.mp below with lowerMain | ⟨sameMain, -⟩
  · unfold LowerMain at raised lowerMain
    omega
  · unfold LowerMain at raised
    simp only [main, Prod.mk.injEq] at sameMain
    omega

/-- The bounds that a release is below. -/
theorem compare_eq_lt_iff_of_release {v bound : Version} (release : v.isPrerelease = false) :
    v.compare bound = .lt ↔ v.LowerMain bound := by
  rw [compare_eq_lt_iff, rankedPrerelease_of_release release]
  exact or_iff_left fun same => comparePrereleaseTexts_nil_left _ same.2

theorem compare_lowest_ne_lt (v : Version) : v.compare lowest ≠ .lt := by
  have zero : lowest.rankedPrerelease = ['0'] := by decide
  intro lower
  rw [compare_eq_lt_iff, zero] at lower
  rcases lower with numbers | ⟨-, below⟩
  · simp [LowerMain, lowest] at numbers
  · exact comparePrereleaseTexts_zero _ below

theorem not_sameRank_lowest_of_release {v : Version} (release : v.isPrerelease = false) :
    v.sameRank lowest = false := by
  have zero : lowest.rankedPrerelease = ['0'] := by decide
  have above : comparePrereleaseTexts [] ['0'] ≠ .eq := by decide
  rw [sameRank, beq_eq_false_iff_ne]
  intro same
  rw [compare, Ordering.then_eq_eq, rankedPrerelease_of_release release, zero] at same
  exact above same.2

end Version

end VersionRange
