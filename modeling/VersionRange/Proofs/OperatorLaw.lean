import VersionRange.Proofs.Degenerate
import VersionRange.Proofs.OneItem
import VersionRange.Proofs.Partial.Standing

/-!
# The law of operators

An operator in front of a partial version asks how the first numbers of a release compare
with the numbers that are given, and in front of a full version how the release ranks
relative to it.  So all releases that agree in the given numbers are admitted together.
-/

namespace VersionRange

namespace Range

variable {options : ParseOptions} {p : PartialVersion} {v : Version}

theorem groupIncludes_bounds (op : Operator) {next : Version} (asked : p.next? = some next)
    (release : v.isPrerelease = false) :
    groupIncludes (Group.bounds options op p.first next) v = op.test (p.standing v) := by
  have belowFirst : v.compare p.first = .lt ↔ p.standing v = .lt :=
    (Version.compare_eq_lt_iff_of_release release).trans (p.lowerMain_first_iff asked v)
  have belowNext : v.compare next = .lt ↔ p.standing v ≠ .gt :=
    (Version.compare_eq_lt_iff_of_release release).trans (p.lowerMain_next_iff asked v)
  rw [Bool.eq_iff_iff, groupIncludes_of_release release]
  cases op with
  | less => simpa [Group.bounds, Comparator.accepts, Operator.test_iff] using belowFirst
  | lessEqual => simpa [Group.bounds, Comparator.accepts, Operator.test_iff] using belowNext
  | greater =>
      simpa [Group.bounds, Comparator.accepts, Operator.test_iff] using not_congr belowNext
  | greaterEqual =>
      simpa [Group.bounds, Comparator.accepts, Operator.test_iff] using not_congr belowFirst
  | equal =>
      have both : (v.compare p.first ≠ .lt ∧ v.compare next = .lt) ↔ p.standing v = .eq := by
        rw [ne_eq, belowFirst, belowNext]
        cases p.standing v <;> simp
      simpa [Group.bounds, Group.between, Comparator.accepts, Operator.test_iff] using both

theorem groupIncludes_single (c : Comparator) (release : v.isPrerelease = false) :
    groupIncludes [c] v = c.accepts v := by
  rw [Bool.eq_iff_iff, groupIncludes_of_release release]
  simp

theorem groupIncludes_primitive (op : Operator) (short : p.numbers.length < 3)
    (release : v.isPrerelease = false) :
    groupIncludes (Group.primitiveComparators options op p) v = op.test (p.standing v) := by
  cases p with
  | full target => simp [PartialVersion.numbers] at short
  | major m | minor m n => exact groupIncludes_bounds op rfl release
  | any =>
      have nothing : Operator.less.test (v.compare .lowest) = false := by
        rw [← Bool.not_eq_true, Operator.test_iff]
        exact Version.compare_lowest_ne_lt v
      rw [PartialVersion.standing_any]
      cases op with
      | less => exact (groupIncludes_single _ release).trans nothing
      | greater => exact (groupIncludes_single _ release).trans nothing
      | lessEqual | greaterEqual | equal => exact groupIncludes_single _ release

/-- A text of an operator and a partial version admits the releases that compare with the
partial version as the operator asks: by as many first numbers as are given, or by rank if
the version is full. -/
theorem includes_as_operator_asks {symbol text : String} {op : Operator}
    (known : Operator.ofSymbol? symbol = some op) {w : PartialVersion.Written}
    (form : PartialVersion.Written.read? text.toList = some w) {range : Range}
    (read : parse options (symbol ++ text) = .ok range) :
    (w.leading.length < 3 → ∀ v : Version, v.isPrerelease = false →
      range.includes v = op.test
        (compare ([v.major, v.minor, v.patch].take w.leading.length)
          (w.leading.map digitsValue))) ∧
    (w.leading.length = 3 → ∃ target : Version, target.SpelledOut text.toList ∧
      ∀ v : Version, v.isPrerelease = false → range.includes v = op.test (v.compare target)) := by
  obtain ⟨p, operandRead, rfl⟩ := parse_item (ItemOperator.mem_symbols known) form read
  obtain ⟨leading, -⟩ := PartialVersion.leading_eq_of_parseChars form operandRead
  have length : w.leading.length = p.numbers.length := by simp [leading]
  have numbers : w.leading.map digitsValue = p.numbers := by simp [leading, Function.comp_def]
  rw [length, numbers]
  constructor
  · intro short v release
    rw [includes_of_single rfl]
    exact groupIncludes_primitive op short release
  · intro three
    cases p with
    | any | major m | minor m n => simp [PartialVersion.numbers] at three
    | full target =>
        refine ⟨target, PartialVersion.parseChars_eq_ok_full_iff.mp operandRead, ?_⟩
        intro v release
        rw [includes_of_single rfl]
        exact groupIncludes_single (.exact op target options) release

/-- An upper bound that lacks its patch number, and a lower bound with a build. -/
theorem includes_as_operator_asks_of_bounds :
    (∃ range, parse {} ("<=" ++ "1.2.x") = .ok range ∧
        range.includes (.release 1 2 9) = true ∧ range.includes (.release 1 3 0) = false) ∧
      ∃ range, parse {} (">" ++ "v1.2.3-a+b") = .ok range ∧
        range.includes (.release 1 2 3) = true := by
  constructor
  · have known : Operator.ofSymbol? "<=" = some .lessEqual := rfl
    have form : PartialVersion.Written.read? "1.2.x".toList =
        some ⟨.number ['1'], some (.number ['2']), some .wildcard, []⟩ := rfl
    have read : parse {} ("<=" ++ "1.2.x") = .ok ⟨[[.exact .less (.release 1 3 0) {}]]⟩ := rfl
    obtain ⟨short, -⟩ := includes_as_operator_asks known form read
    exact ⟨_, read, short (by decide) _ rfl, short (by decide) _ rfl⟩
  · have known : Operator.ofSymbol? ">" = some .greater := rfl
    have form : PartialVersion.Written.read? "v1.2.3-a+b".toList =
        some ⟨.number ['1'], some (.number ['2']), some (.number ['3']), "-a+b".toList⟩ := rfl
    have whole : PartialVersion.parseChars "v1.2.3-a+b".toList =
        .ok (.full ⟨1, 2, 3, [.word "a"], ["b"]⟩) := rfl
    have read : parse {} (">" ++ "v1.2.3-a+b") =
        .ok ⟨[[.exact .greater ⟨1, 2, 3, [.word "a"], ["b"]⟩ {}]]⟩ := rfl
    obtain ⟨-, full⟩ := includes_as_operator_asks known form read
    obtain ⟨target, spelled, law⟩ := full rfl
    rw [PartialVersion.parseChars_eq_ok_full_iff.mpr spelled] at whole
    cases whole
    exact ⟨_, read, law _ rfl⟩

end Range

end VersionRange
