import VersionRange.Proofs.Canonical
import VersionRange.Proofs.Degenerate
import VersionRange.Proofs.Group.Targets

/-!
# What unlocks prereleases

Without the option to include prereleases, a range admits a prerelease only through a
comparator that unlocks it.  Such a comparator has a full version for its target that is
written out in the range text, since all bounds that are made up are releases, except for
the lowest version, and a range with that one admits nothing at all.
-/

namespace VersionRange

namespace Range

variable {text : String} {range : Range}

/-- A full version that is an operand in one of the parts of the text. -/
def WritesOut (text : String) (target : Version) : Prop :=
  ∃ part ∈ splitGroups text.toList, Group.WritesOut part target

theorem sourced_of_parse {options : ParseOptions} (read : parse options text = .ok range)
    {group : List Comparator} (member : group ∈ range.groups) :
    ∀ c ∈ group, c.Sourced (WritesOut text) := by
  intro c inside
  obtain ⟨found, ⟨part, among, groupRead⟩, insideFound⟩ :=
    exists_hasGroup_of_parse read member inside
  exact (Group.sourced_of_parse groupRead c insideFound).mono fun _ written =>
    ⟨part, among, written⟩

/-- A range that admits something has no all-exclusive comparator. -/
theorem not_isAllExclusive_of_includes {options : ParseOptions}
    (read : parse options text = .ok range) {v : Version} (included : range.includes v = true)
    {group : List Comparator} (member : group ∈ range.groups) :
    ∀ c ∈ group, c.isAllExclusive = false := by
  intro c inside
  rcases (normal_of_parse read).simple with ⟨d, single, -⟩ | irreducible
  · rw [single, List.mem_singleton] at member
    subst member
    rw [List.mem_singleton] at inside
    subst inside
    by_contra exclusive
    have stamped := stamped_of_parse read [c] (by simp [single]) c (by simp)
    rw [not_includes_of_isAllExclusive stamped (by simpa using exclusive) single v] at included
    cases included
  · exact (irreducible group member).2 c inside

theorem written_of_unlocks {options : ParseOptions} (read : parse options text = .ok range)
    {v : Version} (included : range.includes v = true) {group : List Comparator}
    (member : group ∈ range.groups) {c : Comparator} (inside : c ∈ group)
    (unlocks : c.unlocks v = true) :
    ∃ op target, c = .exact op target options ∧ WritesOut text target := by
  have stamped := stamped_of_parse read group member c inside
  obtain ⟨op, target, own, rfl, prerelease, -⟩ := unlocks_iff.mp unlocks
  rcases sourced_of_parse read member _ inside prerelease with written | ⟨rfl, rfl⟩
  · exact ⟨op, target, by rw [stamped.2], written⟩
  · have ordinary := not_isAllExclusive_of_includes read included member _ inside
    have lowest : (Comparator.exact .less .lowest own).isAllExclusive = true := rfl
    rw [lowest] at ordinary
    cases ordinary

/-- Without the option a range admits a prerelease only if its text has a full version that
is a prerelease of the same three numbers; all that unlocks the prerelease is such a
version. -/
theorem unlocked_only_by_written (read : parse ⟨false⟩ text = .ok range) {v : Version}
    (prerelease : v.isPrerelease = true) (included : range.includes v = true) :
    (∃ target, WritesOut text target ∧ target.isPrerelease = true ∧ target.main = v.main) ∧
      ∀ group ∈ range.groups, ∀ c ∈ group, c.unlocks v = true →
        ∃ op target, c = .exact op target ⟨false⟩ ∧ WritesOut text target := by
  refine ⟨?_, fun group member c inside => written_of_unlocks read included member inside⟩
  obtain ⟨group, member, -, release | ⟨op, target, own, inside, same⟩ | gateless⟩ :=
    includes_iff.mp included
  · rw [release] at prerelease
    cases prerelease
  · have unlocks := unlocks_iff.mpr ⟨op, target, own, rfl, same⟩
    obtain ⟨_, _, equal, written⟩ := written_of_unlocks read included member inside unlocks
    cases equal
    exact ⟨target, written, same⟩
  -- Every group has a comparator, and none of them has the option.
  · obtain ⟨c, inside⟩ :=
      List.exists_mem_of_ne_nil group ((normal_of_parse read).groups group member)
    have admits := gateless c inside
    rw [(stamped_of_parse read group member c inside).options_eq] at admits
    cases admits

/-- A bound that is a prerelease unlocks another prerelease of the same numbers. -/
theorem unlocked_only_by_written_of_bounds :
    ∃ target, WritesOut ">=1.5.0-alpha <2.0.0" target ∧ target.isPrerelease = true ∧
      target.main = (1, 5, 0) := by
  have read : parse ⟨false⟩ ">=1.5.0-alpha <2.0.0" =
      .ok ⟨[Group.between ⟨false⟩ ⟨1, 5, 0, [.word "alpha"], []⟩ (.release 2 0 0)]⟩ := rfl
  exact (unlocked_only_by_written read (v := ⟨1, 5, 0, [.word "beta"], []⟩) rfl rfl).1

end Range

end VersionRange
