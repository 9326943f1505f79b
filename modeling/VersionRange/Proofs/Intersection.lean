import VersionRange.Proofs.Canonical
import VersionRange.Proofs.Degenerate
import VersionRange.Proofs.Group.Seam

/-!
# Spacing range texts

Two texts of a single group with a space between them are such a text again, with the
comparators of both.  It admits the releases that both of them admit: neither repetitions
nor degenerate comparators change which releases a single group admits.
-/

namespace VersionRange

open Fallible

namespace Group

variable {options : ParseOptions} {first second : List Char}
  {firstFound secondFound : List Comparator}

/-- A blank group adds nothing to the other, which is read as if it stood alone. -/
theorem exists_parse_spaced (firstRead : parse options first = .ok firstFound)
    (secondRead : parse options second = .ok secondFound) :
    ∃ found, parse options (first ++ ' ' :: second) = .ok found ∧
      (¬allBlank first = true → ¬allBlank second = true → found = firstFound ++ secondFound) ∧
      (firstFound ≠ [] → secondFound ≠ [] → found ≠ []) ∧
        ∀ v, (∀ c ∈ found, c.accepts v = true) ↔
          (∀ c ∈ firstFound, c.accepts v = true) ∧ ∀ c ∈ secondFound, c.accepts v = true := by
  by_cases firstBlank : allBlank first = true
  · rw [parse_of_blank firstBlank] at firstRead
    cases firstRead
    have space : allBlank (first ++ [' ']) = true := by
      unfold allBlank at firstBlank ⊢
      rw [List.all_append, firstBlank]
      decide
    have padded := parse_padded secondRead _ [] space rfl
    refine ⟨secondFound, by simpa using padded, fun some => absurd firstBlank some,
      fun _ some => some, fun v => ?_⟩
    simp [Comparator.accepts]
  by_cases secondBlank : allBlank second = true
  · rw [parse_of_blank secondBlank] at secondRead
    cases secondRead
    have space : allBlank (' ' :: second) = true := by
      unfold allBlank at secondBlank ⊢
      rw [List.all_cons, secondBlank]
      decide
    have padded := parse_padded firstRead [] _ rfl space
    refine ⟨firstFound, by simpa using padded, fun _ some => absurd secondBlank some,
      fun some _ => some, fun v => ?_⟩
    simp [Comparator.accepts]
  · refine ⟨firstFound ++ secondFound, parse_append firstRead secondRead firstBlank secondBlank,
      fun _ _ => rfl, fun some _ => by simp [some], fun v => ?_⟩
    exact List.forall_mem_append

end Group

namespace Range

variable {options : ParseOptions}

/-- What the simplification of a single group makes of it admits the same releases. -/
theorem includes_iff_of_single {found : List Comparator}
    (stamped : ∀ c ∈ found, c.Stamped options) {range : Range} {record : Option JournalRecord}
    (simplified : simplify [distinctBy Comparator.interchangeable found] = .ok (range, record))
    {v : Version} (release : v.isPrerelease = false) :
    range.includes v = true ↔ ∀ c ∈ found, c.accepts v = true := by
  have respects (c d : Comparator) (same : c.interchangeable d = true) :
      c.accepts v = true ↔ d.accepts v = true := by
    rw [Comparator.accepts_eq_of_interchangeable same]
  rw [← forall_mem_distinctBy respects]
  rcases simplify_outcomes simplified with
    ⟨group, member, all, c, inside, single⟩ | ⟨-, c, inside, exclusive, single⟩ | ⟨same, -⟩
  · obtain rfl := List.mem_singleton.mp member
    have accepts := fun d among => Comparator.accepts_of_isAllInclusive (all d among) release
    rw [includes_of_single single, groupIncludes_of_release release]
    exact iff_of_true (by simpa using accepts c inside) accepts
  · have among : c ∈ distinctBy Comparator.interchangeable found := by simpa using inside
    have own := stamped c ((distinctBy_sublist found).subset among)
    refine iff_of_false ?_ fun accepts => ?_
    · simp [not_includes_of_isAllExclusive own exclusive single v]
    · have accepted := accepts c among
      rw [Comparator.not_accepts_of_isAllExclusive own exclusive v] at accepted
      cases accepted
  · rw [includes_of_single same, groupIncludes_of_release release]

/-- Single groups that are read are read with a space between them as well, as the comparators
of both unless one is blank, and admit together the releases that both admit. -/
theorem spaced_admits_both {first second : String} {firstRange secondRange : Range}
    (firstSingle : SinglePart first) (secondSingle : SinglePart second)
    (firstRead : parse options first = .ok firstRange)
    (secondRead : parse options second = .ok secondRange) :
    ∃ range, parse options (first ++ " " ++ second) = .ok range ∧
      (¬allBlank first.toList = true → ¬allBlank second.toList = true →
        ∃ firstFound secondFound,
          (∀ group, HasGroup options first group ↔ group = firstFound) ∧
          (∀ group, HasGroup options second group ↔ group = secondFound) ∧
          ∀ group, HasGroup options (first ++ " " ++ second) group ↔
            group = firstFound ++ secondFound) ∧
      ∀ v : Version, v.isPrerelease = false →
        (range.includes v = true ↔
          firstRange.includes v = true ∧ secondRange.includes v = true) := by
  have firstPart := splitGroups_of_singlePart firstSingle
  have secondPart := splitGroups_of_singlePart secondSingle
  obtain ⟨firstFound, firstRecord, firstGroup, firstSimplified⟩ :=
    (parse_eq_ok_iff_of_single firstPart).mp firstRead
  obtain ⟨secondFound, secondRecord, secondGroup, secondSimplified⟩ :=
    (parse_eq_ok_iff_of_single secondPart).mp secondRead
  obtain ⟨found, group, append, nonempty, accepts⟩ :=
    Group.exists_parse_spaced firstGroup secondGroup
  have whole : (first ++ " " ++ second).toList = first.toList ++ ' ' :: second.toList := by simp
  have part : splitGroups (first ++ " " ++ second).toList =
      [first.toList ++ ' ' :: second.toList] := by
    rw [whole, splitGroups_of_no_bar (Group.bar_not_mem_of_parse group)]
  have firstSome := simplify_succeeds_iff_of_single.mp ⟨_, _, firstSimplified⟩
  have secondSome := simplify_succeeds_iff_of_single.mp ⟨_, _, secondSimplified⟩
  rw [ne_eq, distinctBy_eq_nil_iff] at firstSome secondSome
  have distinctSome : distinctBy Comparator.interchangeable found ≠ [] := by
    simpa using nonempty firstSome secondSome
  obtain ⟨range, record, simplified⟩ := simplify_succeeds_iff_of_single.mpr distinctSome
  refine ⟨range, (parse_eq_ok_iff_of_single part).mpr ⟨found, record, group, simplified⟩, ?_, ?_⟩
  · intro firstWritten secondWritten
    obtain rfl := append firstWritten secondWritten
    exact ⟨firstFound, secondFound, fun _ => hasGroup_iff_of_single firstPart firstGroup,
      fun _ => hasGroup_iff_of_single secondPart secondGroup,
      fun _ => hasGroup_iff_of_single part group⟩
  · intro v release
    rw [includes_iff_of_single (Group.stamped_of_parse group) simplified release,
      includes_iff_of_single (Group.stamped_of_parse firstGroup) firstSimplified release,
      includes_iff_of_single (Group.stamped_of_parse secondGroup) secondSimplified release,
      accepts v]

/-- A lower and an upper bound, with commas and blanks at the seam. -/
theorem spaced_admits_both_of_bounds :
    ∃ range, parse {} (">= 1.2, " ++ " " ++ ",<2") = .ok range ∧
      range.includes (.release 1 5 0) = true ∧ ¬range.includes (.release 2 5 0) = true ∧
        HasGroup {} (">= 1.2, " ++ " " ++ ",<2")
          [.exact .greaterEqual (.release 1 2 0) {}, .exact .less (.release 2 0 0) {}] := by
  have lower : parse {} ">= 1.2, " = .ok ⟨[[.exact .greaterEqual (.release 1 2 0) {}]]⟩ := rfl
  have upper : parse {} ",<2" = .ok ⟨[[.exact .less (.release 2 0 0) {}]]⟩ := rfl
  have lowerGroup : HasGroup {} ">= 1.2, " [.exact .greaterEqual (.release 1 2 0) {}] :=
    (hasGroup_iff_of_single rfl rfl).mpr rfl
  have upperGroup : HasGroup {} ",<2" [.exact .less (.release 2 0 0) {}] :=
    (hasGroup_iff_of_single rfl rfl).mpr rfl
  have lowerSingle : SinglePart ">= 1.2, " := by
    unfold SinglePart
    decide +kernel
  have upperSingle : SinglePart ",<2" := by
    unfold SinglePart
    decide +kernel
  obtain ⟨range, read, groups, both⟩ := spaced_admits_both lowerSingle upperSingle lower upper
  refine ⟨range, read, (both _ rfl).mpr ⟨rfl, rfl⟩, (both _ rfl).not.mpr (by decide), ?_⟩
  obtain ⟨_, _, lowerIff, upperIff, wholeIff⟩ := groups (by decide) (by decide)
  obtain rfl := (lowerIff _).mp lowerGroup
  obtain rfl := (upperIff _).mp upperGroup
  exact (wholeIff _).mpr rfl

end Range

end VersionRange
