import VersionRange.Proofs.Version.Bounds

/-!
# Versions that can be built

A version can also be built from identifiers that no version text has: a word with a plus
sign in it ends the prerelease early.  There is still something in front of the plus sign,
so that every prerelease that can be built ranks below the release of its numbers.
-/

namespace VersionRange

open Fallible

namespace Version

theorem read?_ne_none_of_checked {v : Version} (built : checked v = .ok v) :
    WrittenVersion.read? v.chars ≠ none := by
  intro refused
  simp only [checked, refused, bind_eq_ok_iff] at built
  obtain ⟨-, -, -, -, last⟩ := built
  -- The form is checked last, and an allowed character does not make up for it.
  split at last <;> cases last

theorem not_mem_mainChars (v : Version) {c : Char} (notDot : c ≠ '.')
    (foreign : c.isDigit = false) : c ∉ v.mainChars := by
  have formed : WrittenVersion.Formed
      ⟨numeralChars v.major, numeralChars v.minor, numeralChars v.patch, [], []⟩ :=
    ⟨isNumericForm_numeralChars _, isNumericForm_numeralChars _, isNumericForm_numeralChars _,
      by simp, by simp⟩
  exact WrittenVersion.not_mem_main formed notDot foreign

/-- What is read from a text can be built as well. -/
theorem checked_of_readable {v : Version} (readable : v.Readable) : checked v = .ok v := by
  have characters : v.chars.all isVersionChar = true :=
    List.all_eq_true.mpr fun _ => isVersionChar_of_mem_chars readable
  have identifiers := readable.prerelease
  simp only [checked, liftNumeral, Except.mapError, writableNumeral, pure_eq_ok, List.forIn_cons,
    readable.major, ↓reduceIte, ok_bind, readable.minor, readable.patch, List.forIn_nil,
    characters, Bool.not_true, Bool.or_false, List.isEmpty_iff, chars_ne_nil,
    read?_chars readable, Option.isNone_some, Bool.false_eq_true]
  -- What is left to pass is the loop over the identifiers.
  generalize v.prerelease = remaining at identifiers
  induction remaining with
  | nil => rfl
  | cons i rest ih =>
      obtain ⟨first, others⟩ := List.forall_mem_cons.mp identifiers
      cases i with
      | numeric n =>
          have writable : isWritableNumeral n = true := first
          simpa [writable] using ih others
      | word text => simpa using ih others

/-- A hyphen with nothing behind it is not read. -/
theorem read?_of_bare_hyphen (v : Version) (after : Option (List Char)) :
    WrittenVersion.read? (v.mainChars ++ '-' :: behind '+' after) = none := by
  have noHyphen : '-' ∉ v.mainChars := v.not_mem_mainChars (by decide) (by decide)
  have noPlus : '+' ∉ v.mainChars ++ ['-'] := by
    simpa using v.not_mem_mainChars (c := '+') (by decide) (by decide)
  have atPlus : cutAt '+' (v.mainChars ++ '-' :: behind '+' after) =
      (v.mainChars ++ ['-'], after) := by
    simpa using cutAt_append_behind noPlus after
  have atHyphen : cutAt '-' (v.mainChars ++ ['-']) = (v.mainChars, some []) :=
    cutAt_append_behind noHyphen (some [])
  have nothing : WrittenVersion.pieces? isPrereleaseForm (some []) = none := by decide
  simp only [WrittenVersion.read?, atPlus, atHyphen, nothing]
  split
  · split <;> rfl
  · rfl

theorem chars_of_bare_prerelease {v : Version} (prerelease : v.isPrerelease = true)
    (bare : v.rankedPrerelease = []) :
    ∃ after, v.chars = v.mainChars ++ '-' :: behind '+' after := by
  have written : v.chars = v.mainChars ++ '-' :: (v.prereleaseChars ++
      if v.build.isEmpty then [] else '+' :: v.buildChars) := by
    have some : v.prerelease.isEmpty = false := by simpa [isPrerelease] using prerelease
    simp [chars, some]
  cases ranked : v.prereleaseChars with
  | nil =>
      rw [written, ranked]
      by_cases none : v.build.isEmpty
      · exact ⟨.none, by simp [none, behind]⟩
      · exact ⟨.some v.buildChars, by simp [none, behind]⟩
  | cons c rest =>
      have plus : c = '+' := by simpa [rankedPrerelease, ranked] using bare
      rw [written, ranked, plus]
      exact ⟨.some _, rfl⟩

theorem rankedPrerelease_ne_nil_of_checked {v : Version} (built : checked v = .ok v)
    (prerelease : v.isPrerelease = true) : v.rankedPrerelease ≠ [] := by
  intro bare
  obtain ⟨after, written⟩ := chars_of_bare_prerelease prerelease bare
  have readable := read?_ne_none_of_checked built
  rw [written, read?_of_bare_hyphen] at readable
  exact readable rfl

end Version

end VersionRange
