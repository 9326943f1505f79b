import VersionRange.Proofs.Version.Written

/-!
# Readable versions

A version is readable when its numbers keep to the limit on numerals and its
identifiers have the form that a version text asks for.  The readable versions are
exactly those that come out of a version text, and the text they come out of is
their written form.
-/

namespace VersionRange

open Fallible

namespace Identifier

def Readable : Identifier → Prop
  | numeric value => isWritableNumeral value = true
  | word text => isBuildForm text.toList = true ∧ text.toList.all Char.isDigit = false

theorem isPrereleaseForm_chars {i : Identifier} (readable : i.Readable) :
    isPrereleaseForm i.chars = true := by
  cases i with
  | numeric value =>
      have form := isNumericForm_numeralChars value
      simp [chars, isPrereleaseForm, form, isBuildForm_of_isNumericForm form]
  | word text => simp [chars, isPrereleaseForm, readable.1, readable.2]

theorem all_isDigit_numeralChars (n : Nat) : (numeralChars n).all Char.isDigit = true :=
  List.all_eq_true.mpr fun _ member => isDigit_of_mem_numeralChars member

/-- An identifier is read from a piece exactly when it is written like it. -/
theorem read_eq_ok_iff {piece : List Char} (form : isPrereleaseForm piece = true)
    {i : Identifier} : read piece = .ok i ↔ i.Readable ∧ i.chars = piece := by
  by_cases digits : piece.all Char.isDigit = true
  · have numeric : isNumericForm piece = true := by
      simp only [isPrereleaseForm, Bool.and_eq_true, digits] at form
      simpa using form.2
    rw [read, if_pos digits, map_eq_ok_iff]
    simp only [readNumeral_eq_ok_iff numeric]
    constructor
    · rintro ⟨value, ⟨written, writable⟩, rfl⟩
      exact ⟨writable, written⟩
    · rintro ⟨readable, written⟩
      cases i with
      | numeric value => exact ⟨value, ⟨written, readable⟩, rfl⟩
      | word text =>
          have := readable.2
          rw [show text.toList = piece from written, digits] at this
          cases this
  · rw [read, if_neg digits]
    constructor
    · intro whole
      cases whole
      refine ⟨⟨?_, ?_⟩, String.toList_ofList⟩
      · rw [String.toList_ofList]
        exact isBuildForm_of_isPrereleaseForm form
      · rw [String.toList_ofList]
        simpa using digits
    · rintro ⟨readable, rfl⟩
      cases i with
      | numeric value => exact absurd (all_isDigit_numeralChars value) digits
      | word text => simp [chars]

end Identifier

namespace Version

structure Readable (v : Version) : Prop where
  major : isWritableNumeral v.major = true
  minor : isWritableNumeral v.minor = true
  patch : isWritableNumeral v.patch = true
  prerelease : ∀ i ∈ v.prerelease, i.Readable
  build : ∀ piece ∈ v.build, isBuildForm piece.toList = true

/-- The pieces that a version is written with. -/
def written (v : Version) : WrittenVersion where
  major := numeralChars v.major
  minor := numeralChars v.minor
  patch := numeralChars v.patch
  prerelease := v.prerelease.map Identifier.chars
  build := v.build.map String.toList

theorem chars_written (v : Version) : v.written.chars = v.chars := by
  simp only [WrittenVersion.chars, WrittenVersion.frontChars, written, chars, mainChars,
    prereleaseChars, buildChars, WrittenVersion.joined, List.isEmpty_map]
  congr 1
  · split <;> simp [behind, *]
  · split <;> simp [behind, *]

theorem formed_written {v : Version} (readable : v.Readable) : v.written.Formed where
  major := isNumericForm_numeralChars v.major
  minor := isNumericForm_numeralChars v.minor
  patch := isNumericForm_numeralChars v.patch
  prerelease := by
    simp only [written, List.mem_map]
    rintro _ ⟨i, member, rfl⟩
    exact Identifier.isPrereleaseForm_chars (readable.prerelease i member)
  build := by
    simp only [written, List.mem_map]
    rintro _ ⟨piece, member, rfl⟩
    exact readable.build piece member

theorem read?_chars {v : Version} (readable : v.Readable) :
    WrittenVersion.read? v.chars = some v.written :=
  WrittenVersion.read?_eq_some_iff.mpr ⟨formed_written readable, chars_written v⟩

theorem chars_ne_nil (v : Version) : v.chars ≠ [] := by
  have digit := numeralChars_ne_nil v.major
  cases numeral : numeralChars v.major with
  | nil => exact absurd numeral digit
  | cons c rest => simp [chars, mainChars, dotted, List.intercalate, numeral]

theorem isVersionChar_of_mem_chars {v : Version} (readable : v.Readable) {c : Char}
    (member : c ∈ v.chars) : isVersionChar c = true :=
  WrittenVersion.isVersionChar_of_mem_chars (formed_written readable)
    (by rwa [chars_written])

/-- The identifiers read from pieces of the right form are the readable ones that
are written like the pieces. -/
theorem mapM_read_eq_ok_iff {pieces : List (List Char)} {identifiers : List Identifier}
    (forms : ∀ piece ∈ pieces, isPrereleaseForm piece = true) :
    liftNumeral (pieces.mapM Identifier.read) = .ok identifiers ↔
      (∀ i ∈ identifiers, i.Readable) ∧ identifiers.map Identifier.chars = pieces := by
  rw [liftNumeral, mapError_eq_ok_iff]
  exact mapM_eq_ok_iff_of_reads fun piece among _ => Identifier.read_eq_ok_iff (forms piece among)

theorem parseChars_eq_ok_iff {text : List Char} {v : Version} :
    parseChars text = .ok v ↔ v.Readable ∧ v.chars = text := by
  constructor
  · intro read
    unfold parseChars at read
    split at read
    · cases read
    · split at read
      · cases read
      next w formedText =>
        obtain ⟨formed, rfl⟩ := WrittenVersion.read?_eq_some_iff.mp formedText
        split at read
        next major minor patch majorRead minorRead patchRead =>
          obtain ⟨identifiers, identifiersRead, whole⟩ := bind_eq_ok_iff.mp read
          cases whole
          obtain ⟨readable, prereleaseWritten⟩ :=
            (mapM_read_eq_ok_iff formed.prerelease).mp identifiersRead
          obtain ⟨majorWritten, majorWritable⟩ :=
            (readNumeral_eq_ok_iff formed.major).mp majorRead
          obtain ⟨minorWritten, minorWritable⟩ :=
            (readNumeral_eq_ok_iff formed.minor).mp minorRead
          obtain ⟨patchWritten, patchWritable⟩ :=
            (readNumeral_eq_ok_iff formed.patch).mp patchRead
          refine ⟨⟨majorWritable, minorWritable, patchWritable, readable, ?_⟩, ?_⟩
          · simpa using formed.build
          · rw [← chars_written]
            simp [written, majorWritten, minorWritten, patchWritten, prereleaseWritten,
              Function.comp_def]
        · cases read
  · rintro ⟨readable, rfl⟩
    have allowed : (v.chars.isEmpty || !v.chars.all isVersionChar) = false := by
      have characters : v.chars.all isVersionChar = true :=
        List.all_eq_true.mpr fun _ => isVersionChar_of_mem_chars readable
      simp [characters, chars_ne_nil]
    have prerelease := (mapM_read_eq_ok_iff (formed_written readable).prerelease).mpr
      ⟨readable.prerelease, rfl⟩
    have numeral {n : Nat} (writable : isWritableNumeral n = true) :
        readNumeral (numeralChars n) = .ok n :=
      (readNumeral_eq_ok_iff (isNumericForm_numeralChars n)).mpr ⟨rfl, writable⟩
    simp only [parseChars, allowed, read?_chars readable, Bool.false_eq_true, if_false]
    rw [prerelease]
    simp [written, numeral readable.major, numeral readable.minor, numeral readable.patch,
      Function.comp_def]

/-- The versions that are read from a text are the readable ones written like it. -/
theorem parse_eq_ok_iff {text : String} {v : Version} :
    parse text = .ok v ↔ v.Readable ∧ v.text = text := by
  rw [parse, parseChars_eq_ok_iff, ← toList_text, String.toList_inj]

theorem readable_of_parse {text : String} {v : Version} (read : parse text = .ok v) : v.Readable :=
  (parse_eq_ok_iff.mp read).1

theorem read_fails_iff {piece : List Char} :
    (∃ fault, Identifier.read piece = .error fault) ↔
      piece.all Char.isDigit = true ∧ digitLimit < piece.length := by
  unfold Identifier.read
  split
  · simp [map_eq_error_iff, readNumeral_eq_error_iff, *]
  · simp [*]

/-- What a text is refused for: it is no version text, or one of its numbers is too
long; the latter goes unnoticed until the three leading numbers are found short enough. -/
theorem fault_of_parseChars {text : List Char} {fault : Fault}
    (refused : parseChars text = .error fault) :
    (∃ cause, fault = .version cause) ∨ ∃ cause, fault = .numeral cause := by
  unfold parseChars at refused
  split at refused
  · cases refused
    exact .inl ⟨_, rfl⟩
  · split at refused
    · cases refused
      exact .inl ⟨_, rfl⟩
    · split at refused
      · simp only [bind_eq_error_iff, liftNumeral, mapError_eq_error_iff, pure_eq_ok, reduceCtorEq,
          and_false, exists_false, or_false] at refused
        obtain ⟨cause, -, rfl⟩ := refused
        exact .inr ⟨cause, rfl⟩
      · cases refused
        exact .inl ⟨_, rfl⟩

theorem parseChars_numeral_iff {text : List Char} :
    (∃ cause, parseChars text = .error (.numeral cause)) ↔
      ∃ w, WrittenVersion.read? text = some w ∧
        (∀ digits ∈ [w.major, w.minor, w.patch], digits.length ≤ digitLimit) ∧
          ∃ piece ∈ w.prerelease, piece.all Char.isDigit = true ∧ digitLimit < piece.length := by
  cases formedText : WrittenVersion.read? text with
  | none =>
      unfold parseChars
      split <;> simp [formedText]
  | some w =>
      obtain ⟨formed, rfl⟩ := WrittenVersion.read?_eq_some_iff.mp formedText
      have allowed : (w.chars.isEmpty || !w.chars.all isVersionChar) = false := by
        have characters : w.chars.all isVersionChar = true :=
          List.all_eq_true.mpr fun _ => WrittenVersion.isVersionChar_of_mem_chars formed
        simp [characters, WrittenVersion.chars_ne_nil formed]
      have identifiers : (∃ cause, liftNumeral (w.prerelease.mapM Identifier.read) =
          .error (.numeral cause)) ↔
            ∃ piece ∈ w.prerelease, piece.all Char.isDigit = true ∧ digitLimit < piece.length := by
        simp [liftNumeral, mapError_eq_error_iff, mapM_fails_iff, read_fails_iff]
      simp only [parseChars, allowed, formedText, Bool.false_eq_true, if_false, Option.some.injEq,
        exists_eq_left', List.mem_cons, List.not_mem_nil, or_false, forall_eq_or_imp, forall_eq]
      by_cases short : w.major.length ≤ digitLimit ∧ w.minor.length ≤ digitLimit ∧
          w.patch.length ≤ digitLimit
      · simp only [readNumeral, short, if_true, and_self, true_and, ← identifiers,
          bind_eq_error_iff, pure_eq_ok, reduceCtorEq, and_false, exists_false, or_false]
      · refine iff_of_false ?_ fun both => short both.1
        rintro ⟨cause, refused⟩
        split at refused
        next major minor patch majorRead minorRead patchRead =>
          exact short ⟨length_le_of_readNumeral majorRead, length_le_of_readNumeral minorRead,
            length_le_of_readNumeral patchRead⟩
        · cases refused

@[simp]
theorem release_major (major minor patch : Nat) : (release major minor patch).major = major :=
  rfl

@[simp]
theorem release_minor (major minor patch : Nat) : (release major minor patch).minor = minor :=
  rfl

@[simp]
theorem release_patch (major minor patch : Nat) : (release major minor patch).patch = patch :=
  rfl

@[simp]
theorem release_prerelease (major minor patch : Nat) :
    (release major minor patch).prerelease = [] :=
  rfl

theorem readable_release {major minor patch : Nat} (majorWritable : isWritableNumeral major = true)
    (minorWritable : isWritableNumeral minor = true)
    (patchWritable : isWritableNumeral patch = true) : (release major minor patch).Readable :=
  ⟨majorWritable, minorWritable, patchWritable, by simp, by simp [release]⟩

theorem readable_lowest : lowest.Readable :=
  ⟨by decide, by decide, by decide, by simp [lowest, Identifier.Readable]; decide, by simp [lowest]⟩

/-- A release can be built exactly when its three numbers can be written, and no
other fault than a number that is too large comes up. -/
theorem releaseChecked_eq (major minor patch : Nat) :
    releaseChecked major minor patch =
      if isWritableNumeral major && isWritableNumeral minor && isWritableNumeral patch then
        .ok (release major minor patch)
      else .error (.numeral .tooLargeToWrite) := by
  have unfolded : releaseChecked major minor patch = (do
      let _ ← liftNumeral (writableNumeral major)
      let _ ← liftNumeral (writableNumeral minor)
      let _ ← liftNumeral (writableNumeral patch)
      if (release major minor patch).chars.isEmpty ||
          !(release major minor patch).chars.all isVersionChar then
        throw (.version (.forbiddenCharacter (release major minor patch).text))
      if (WrittenVersion.read? (release major minor patch).chars).isNone then
        throw (.version (.badForm (release major minor patch).text))
      return release major minor patch) := by
    simp [releaseChecked, checked]
  rw [unfolded]
  by_cases writable : isWritableNumeral major && isWritableNumeral minor && isWritableNumeral patch
  · rw [if_pos writable]
    simp only [Bool.and_eq_true] at writable
    obtain ⟨⟨majorWritable, minorWritable⟩, patchWritable⟩ := writable
    have readable := readable_release majorWritable minorWritable patchWritable
    have characters : (release major minor patch).chars.all isVersionChar = true :=
      List.all_eq_true.mpr fun _ => isVersionChar_of_mem_chars readable
    simp [writableNumeral, majorWritable, minorWritable, patchWritable, characters,
      read?_chars readable, chars_ne_nil, liftNumeral, Except.mapError]
  · rw [if_neg writable]
    cases majorWritable : isWritableNumeral major with
    | false => simp [writableNumeral, majorWritable, liftNumeral, Except.mapError]
    | true =>
        cases minorWritable : isWritableNumeral minor with
        | false =>
            simp [writableNumeral, majorWritable, minorWritable, liftNumeral, Except.mapError]
        | true =>
            have patchWritable : isWritableNumeral patch = false := by
              simpa [majorWritable, minorWritable] using writable
            simp [writableNumeral, majorWritable, minorWritable, patchWritable, liftNumeral,
              Except.mapError]

end Version

end VersionRange
