import VersionRange.Proofs.Group.Expansion
import VersionRange.Proofs.Partial.Spelling
import VersionRange.Proofs.Version.Bounds

/-!
# How versions stand to partial versions

A version stands to a partial version with one or two numbers as its first numbers compare
with those.  The bounds that such a partial version expands to separate the three cases:
below its first release the numbers are lower, and from its next release on they are higher.
-/

namespace VersionRange

namespace PartialVersion

/-- How the first numbers of a version compare with those that a partial version gives. -/
def standing (p : PartialVersion) (v : Version) : Ordering :=
  compare ([v.major, v.minor, v.patch].take p.numbers.length) p.numbers

@[simp] theorem standing_any (v : Version) : any.standing v = .eq := by
  simp [standing, numbers]

@[simp] theorem standing_major (m : Nat) (v : Version) :
    (major m).standing v = compare v.major m := by
  simp [standing, numbers, List.compare_cons_cons]

@[simp] theorem standing_minor (m n : Nat) (v : Version) :
    (minor m n).standing v = (compare v.major m).then (compare v.minor n) := by
  simp [standing, numbers, List.compare_cons_cons]

section Bounds

variable {p : PartialVersion} {next : Version}

/-- Below the first release are the versions whose first numbers are lower. -/
theorem lowerMain_first_iff (asked : p.next? = some next) (v : Version) :
    v.LowerMain p.first ↔ p.standing v = .lt := by
  cases p with
  | any => cases asked
  | full target => cases asked
  | major m => simp [first, Version.LowerMain, Version.release, Nat.compare_eq_lt]
  | minor m n =>
      simp [first, Version.LowerMain, Version.release, Ordering.then_eq_lt, Nat.compare_eq_lt]

/-- Below the next release are the versions whose first numbers are lower or the same. -/
theorem lowerMain_next_iff (asked : p.next? = some next) (v : Version) :
    v.LowerMain next ↔ p.standing v ≠ .gt := by
  cases p with
  | any => cases asked
  | full target => cases asked
  | major m =>
      cases asked
      simp only [standing_major, ne_eq, Nat.compare_eq_gt, Version.LowerMain, Version.release]
      omega
  | minor m n =>
      cases asked
      simp only [standing_minor, ne_eq, Ordering.then_eq_gt, Nat.compare_eq_gt, Nat.compare_eq_eq,
        Version.LowerMain, Version.release]
      omega

theorem first_lowerMain_next (asked : p.next? = some next) : p.first.LowerMain next := by
  cases p <;> cases asked <;> simp [first, Version.LowerMain, Version.release]

end Bounds

/-- The numbers in front tell what is read, unless all three of them are given. -/
theorem eq_of_leading {p q : PartialVersion} {next : Version} (asked : p.next? = some next)
    {text : List Char} {w : Written} (form : Written.read? text = some w)
    (leading : w.leading.map digitsValue = p.numbers) (read : parseChars text = .ok q) :
    q = p := by
  obtain ⟨same, -⟩ := leading_eq_of_parseChars form read
  have numbers : q.numbers = p.numbers := by
    rw [← leading, same]
    simp [Function.comp_def]
  cases p with
  | any => cases asked
  | full target => cases asked
  | major m | minor m n => cases q <;> simp_all [PartialVersion.numbers]

end PartialVersion

end VersionRange
