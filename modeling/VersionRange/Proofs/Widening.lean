import VersionRange.Proofs.Canonical
import VersionRange.Proofs.Stamping

/-!
# Including prereleases

With prereleases included all gates are open.  The same texts are read, as the same
comparators, and the ranges admit the same releases; of the prereleases they admit at least
those that pass the gates of their groups otherwise.
-/

namespace VersionRange

namespace Range

section Group

variable (other : ParseOptions) {group : List Comparator} {v : Version}

theorem groupIncludes_stamp_of_release (release : v.isPrerelease = false) :
    groupIncludes (group.map (Comparator.stamp other)) v = groupIncludes group v := by
  rw [Bool.eq_iff_iff, groupIncludes_of_release release, groupIncludes_of_release release]
  simp

theorem groupIncludes_stamp_of_included (included : groupIncludes group v = true) :
    groupIncludes (group.map (Comparator.stamp ⟨true⟩)) v = true := by
  rw [groupIncludes_iff_of_included (by simp)]
  intro c inside
  obtain ⟨d, member, rfl⟩ := List.mem_map.mp inside
  rw [Comparator.accepts_stamp]
  exact forall_accepts_iff.mpr (groupIncludes_iff.mp included).1 d member

end Group

theorem includes_stamp_of_release (other : ParseOptions) (range : Range) {v : Version}
    (release : v.isPrerelease = false) : (range.stamp other).includes v = range.includes v := by
  simp [includes, stamp, Function.comp_def, groupIncludes_stamp_of_release other release]

theorem includes_stamp_of_included {range : Range} {v : Version}
    (included : range.includes v = true) : (range.stamp ⟨true⟩).includes v = true := by
  obtain ⟨group, member, admits⟩ := List.any_eq_true.mp included
  refine List.any_eq_true.mpr ⟨group.map (Comparator.stamp ⟨true⟩), ?_, ?_⟩
  · exact List.mem_map_of_mem member
  · exact groupIncludes_stamp_of_included admits

/-- Including prereleases changes neither whether a text is read, nor the fault if it is not,
nor the comparators and their text if it is.  It changes nothing for releases, and shuts no
version out. -/
theorem includePrerelease_widens (text : String) :
    (∃ fault, parse ⟨false⟩ text = .error fault ∧ parse ⟨true⟩ text = .error fault) ∨
      ∃ narrow wide, parse ⟨false⟩ text = .ok narrow ∧ parse ⟨true⟩ text = .ok wide ∧
        wide.text = narrow.text ∧ wide = narrow.stamp ⟨true⟩ ∧
          (∀ v : Version, v.isPrerelease = false → wide.includes v = narrow.includes v) ∧
            ∀ v : Version, narrow.includes v = true → wide.includes v = true := by
  have stamps := parse_stamp ⟨false⟩ ⟨true⟩ text
  cases read : parse ⟨false⟩ text with
  | error fault =>
      rw [read] at stamps
      exact .inl ⟨fault, rfl, stamps⟩
  | ok narrow =>
      rw [read] at stamps
      refine .inr ⟨narrow, narrow.stamp ⟨true⟩, rfl, stamps, text_stamp ⟨true⟩ narrow, rfl, ?_, ?_⟩
      · intro v release
        exact includes_stamp_of_release ⟨true⟩ narrow release
      · intro v included
        exact includes_stamp_of_included included

end Range

end VersionRange
