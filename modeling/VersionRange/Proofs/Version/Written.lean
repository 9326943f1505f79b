import VersionRange.Proofs.Numeral
import VersionRange.Proofs.Text.Cutting

/-!
# The pieces of a version text

A version text is cut at its first plus sign, what is in front at its first hyphen, and
each part at its dots.  Pieces that have the form asked for hold none of these separators,
apart from the hyphen behind the first one, so that the text they make up is cut into the
same pieces again.
-/

namespace VersionRange

theorem toNat_of_isAlpha {c : Char} (alpha : c.isAlpha = true) :
    (65 ≤ c.toNat ∧ c.toNat ≤ 90) ∨ (97 ≤ c.toNat ∧ c.toNat ≤ 122) := by
  have unfolded : c.isAlpha = (decide ('A'.val ≤ c.val ∧ c.val ≤ 'Z'.val) ||
      decide ('a'.val ≤ c.val) && decide (c.val ≤ 'z'.val)) := rfl
  rw [unfolded] at alpha
  simp only [Bool.or_eq_true, Bool.and_eq_true, decide_eq_true_eq, UInt32.le_iff_toNat_le] at alpha
  exact alpha

theorem toNat_of_isAlphanum {c : Char} (alphanum : c.isAlphanum = true) :
    (65 ≤ c.toNat ∧ c.toNat ≤ 90) ∨ (97 ≤ c.toNat ∧ c.toNat ≤ 122) ∨
      (48 ≤ c.toNat ∧ c.toNat ≤ 57) := by
  rcases Bool.or_eq_true_iff.mp alphanum with alpha | digit
  · exact or_assoc.mp (.inl (toNat_of_isAlpha alpha))
  · exact .inr (.inr (Char.isDigit_iff_toNat.mp digit))

theorem isIdentifierChar_of_isDigit {c : Char} (digit : c.isDigit = true) :
    isIdentifierChar c = true := by
  simp [isIdentifierChar, Char.isAlphanum, digit]

theorem isVersionChar_of_isIdentifierChar {c : Char} (identifier : isIdentifierChar c = true) :
    isVersionChar c = true := by
  simp only [isIdentifierChar, Bool.or_eq_true, decide_eq_true_eq] at identifier
  rcases identifier with letter | rfl
  · simp [isVersionChar, letter]
  · decide

theorem isIdentifierChar_of_mem_of_isBuildForm {piece : List Char} {c : Char}
    (form : isBuildForm piece = true) (member : c ∈ piece) : isIdentifierChar c = true := by
  simp only [isBuildForm, Bool.and_eq_true, List.all_eq_true] at form
  exact form.2 c member

theorem isBuildForm_of_isPrereleaseForm {piece : List Char}
    (form : isPrereleaseForm piece = true) : isBuildForm piece = true := by
  simp only [isPrereleaseForm, Bool.and_eq_true] at form
  exact form.1

theorem isBuildForm_of_isNumericForm {piece : List Char} (form : isNumericForm piece = true) :
    isBuildForm piece = true := by
  obtain ⟨nonempty, digits, -⟩ := isNumericForm_iff.mp form
  simp only [isBuildForm, Bool.and_eq_true, List.all_eq_true]
  exact ⟨by simpa using nonempty, fun c member => isIdentifierChar_of_isDigit (digits c member)⟩

/-- A character that no identifier has stands in no dotted sequence of identifiers,
unless it is the dot. -/
theorem not_mem_dotted {pieces : List (List Char)} {c : Char} (notDot : c ≠ '.')
    (foreign : isIdentifierChar c = false)
    (forms : ∀ piece ∈ pieces, isBuildForm piece = true) : c ∉ dotted pieces := by
  intro member
  rcases mem_dotted member with dot | ⟨piece, among, inside⟩
  · exact notDot dot
  · simp [isIdentifierChar_of_mem_of_isBuildForm (forms piece among) inside] at foreign

namespace WrittenVersion

/-- Every piece has its form. -/
structure Formed (w : WrittenVersion) : Prop where
  major : isNumericForm w.major = true
  minor : isNumericForm w.minor = true
  patch : isNumericForm w.patch = true
  prerelease : ∀ piece ∈ w.prerelease, isPrereleaseForm piece = true
  build : ∀ piece ∈ w.build, isBuildForm piece = true

/-- The part that a list of pieces was cut from; without pieces there is none. -/
def joined (pieces : List (List Char)) : Option (List Char) :=
  if pieces.isEmpty then none else some (dotted pieces)

/-- The text in front of the build. -/
def frontChars (w : WrittenVersion) : List Char :=
  dotted [w.major, w.minor, w.patch] ++ behind '-' (joined w.prerelease)

/-- The text that the pieces were cut from. -/
def chars (w : WrittenVersion) : List Char :=
  w.frontChars ++ behind '+' (joined w.build)

theorem pieces?_eq_some_iff {hasForm : List Char → Bool} {part : Option (List Char)}
    {pieces : List (List Char)}
    (noDot : ∀ piece, hasForm piece = true → '.' ∉ piece) :
    pieces? hasForm part = some pieces ↔
      (∀ piece ∈ pieces, hasForm piece = true) ∧ part = joined pieces := by
  cases part with
  | none =>
      cases pieces <;> simp [pieces?, joined]
  | some text =>
      constructor
      · intro cut
        simp only [pieces?, Option.ite_none_right_eq_some, Option.some.injEq] at cut
        obtain ⟨forms, rfl⟩ := cut
        have nonempty := List.splitOn_ne_nil '.' text
        exact ⟨by simpa using forms, by simp [joined, nonempty, dotted_splitOn]⟩
      · rintro ⟨forms, whole⟩
        unfold joined at whole
        split at whole
        · cases whole
        · cases whole
          have nonempty : pieces ≠ [] := by simpa using ‹¬pieces.isEmpty = true›
          rw [pieces?, splitOn_dotted nonempty fun piece member => noDot piece (forms piece member)]
          simpa using forms

theorem dot_not_mem_of_isBuildForm {piece : List Char} (form : isBuildForm piece = true) :
    '.' ∉ piece := by
  intro member
  exact absurd (isIdentifierChar_of_mem_of_isBuildForm form member) (by decide)

/-- A character that no identifier has is not in the three numbers. -/
theorem not_mem_main {w : WrittenVersion} (formed : w.Formed) {c : Char} (notDot : c ≠ '.')
    (foreign : c.isDigit = false) : c ∉ dotted [w.major, w.minor, w.patch] := by
  intro member
  have digits {piece : List Char} (form : isNumericForm piece = true) (inside : c ∈ piece) :
      False := by
    simp [(isNumericForm_iff.mp form).2.1 c inside] at foreign
  rcases mem_dotted member with dot | ⟨piece, among, inside⟩
  · exact notDot dot
  · simp only [List.mem_cons, List.not_mem_nil, or_false] at among
    rcases among with rfl | rfl | rfl
    · exact digits formed.major inside
    · exact digits formed.minor inside
    · exact digits formed.patch inside

theorem plus_not_mem_frontChars {w : WrittenVersion} (formed : w.Formed) : '+' ∉ w.frontChars := by
  have main := not_mem_main formed (c := '+') (by decide) (by decide)
  have tail : '+' ∉ dotted w.prerelease :=
    not_mem_dotted (by decide) (by decide) fun piece member =>
      isBuildForm_of_isPrereleaseForm (formed.prerelease piece member)
  unfold frontChars joined
  split <;> simp [behind, main, tail]

/-- The texts of the version grammar are the texts that formed pieces make up. -/
theorem read?_eq_some_iff {text : List Char} {w : WrittenVersion} :
    read? text = some w ↔ w.Formed ∧ w.chars = text := by
  have noDot (piece : List Char) (form : isPrereleaseForm piece = true) : '.' ∉ piece :=
    dot_not_mem_of_isBuildForm (isBuildForm_of_isPrereleaseForm form)
  constructor
  · intro read
    rcases cutPlus : cutAt '+' text with ⟨front, buildPart⟩
    rcases cutHyphen : cutAt '-' front with ⟨main, prereleasePart⟩
    simp only [read?, cutPlus, cutHyphen] at read
    split at read
    next major minor patch numbers =>
      simp only [Option.ite_none_right_eq_some, Bool.and_eq_true, Option.bind_eq_bind,
        Option.bind_eq_some_iff, Option.pure_def, Option.some.injEq] at read
      obtain ⟨⟨⟨majorForm, minorForm⟩, patchForm⟩, prerelease, prereleaseCut, build, buildCut,
        rfl⟩ := read
      obtain ⟨prereleaseForms, rfl⟩ := (pieces?_eq_some_iff noDot).mp prereleaseCut
      obtain ⟨buildForms, rfl⟩ :=
        (pieces?_eq_some_iff fun _ => dot_not_mem_of_isBuildForm).mp buildCut
      refine ⟨⟨majorForm, minorForm, patchForm, prereleaseForms, buildForms⟩, ?_⟩
      rw [(cutAt_eq_iff.mp cutPlus).2, (cutAt_eq_iff.mp cutHyphen).2, ← dotted_splitOn main,
        numbers]
      rfl
    · cases read
  · rintro ⟨formed, rfl⟩
    have hyphen := not_mem_main formed (c := '-') (by decide) (by decide)
    have numbers :
        (dotted [w.major, w.minor, w.patch]).splitOn '.' = [w.major, w.minor, w.patch] := by
      refine splitOn_dotted (by simp) ?_
      simp [dot_not_mem_of_isBuildForm (isBuildForm_of_isNumericForm formed.major),
        dot_not_mem_of_isBuildForm (isBuildForm_of_isNumericForm formed.minor),
        dot_not_mem_of_isBuildForm (isBuildForm_of_isNumericForm formed.patch)]
    have prereleaseCut := (pieces?_eq_some_iff noDot).mpr ⟨formed.prerelease, rfl⟩
    have buildCut :=
      (pieces?_eq_some_iff fun _ => dot_not_mem_of_isBuildForm).mpr ⟨formed.build, rfl⟩
    rw [read?, chars, cutAt_append_behind (plus_not_mem_frontChars formed)]
    simp only [frontChars]
    rw [cutAt_append_behind hyphen]
    simp [numbers, formed.major, formed.minor, formed.patch, prereleaseCut, buildCut]

/-- The three numbers of a version text are what stands in front of its suffix. -/
theorem numbers_eq_of_chars {w : WrittenVersion} (formed : w.Formed) {runs : List (List Char)}
    {suffix : List Char} (nonempty : runs ≠ [])
    (forms : ∀ digits ∈ runs, isNumericForm digits = true)
    (boundary : ∀ c, suffix.head? = some c → (c.isDigit || c = '.') = false)
    (whole : w.chars = dotted runs ++ suffix) : [w.major, w.minor, w.patch] = runs := by
  have inside {pieces : List (List Char)} (forms : ∀ digits ∈ pieces, isNumericForm digits = true)
      (c : Char) (member : c ∈ dotted pieces) : (c.isDigit || c = '.') = true := by
    rcases mem_dotted member with rfl | ⟨digits, among, digit⟩
    · decide
    · simp [(isNumericForm_iff.mp (forms digits among)).2.1 c digit]
  have noDot {pieces : List (List Char)} (forms : ∀ digits ∈ pieces, isNumericForm digits = true)
      (digits : List Char) (among : digits ∈ pieces) : '.' ∉ digits :=
    dot_not_mem_of_isBuildForm (isBuildForm_of_isNumericForm (forms digits among))
  have numbers : ∀ digits ∈ [w.major, w.minor, w.patch], isNumericForm digits = true := by
    simp [formed.major, formed.minor, formed.patch]
  have ends (c : Char)
      (head : (behind '-' (joined w.prerelease) ++ behind '+' (joined w.build)).head? = some c) :
      (c.isDigit || c = '.') = false := by
    cases prerelease : joined w.prerelease <;> cases build : joined w.build <;>
      simp only [prerelease, build, behind, List.append_nil, List.nil_append, List.cons_append,
        List.head?_nil, List.head?_cons, Option.some.injEq, reduceCtorEq] at head <;>
      (subst head; decide)
  -- Digits and dots reach just as far in both spellings of the text.
  have front := takeWhile_front (inside numbers) ends
  rw [← List.append_assoc] at front
  change w.chars.takeWhile _ = _ at front
  rw [whole, takeWhile_front (inside forms) boundary] at front
  rw [← splitOn_dotted (by simp) (noDot numbers), ← front, splitOn_dotted nonempty (noDot forms)]

theorem chars_ne_nil {w : WrittenVersion} (formed : w.Formed) : w.chars ≠ [] := by
  have nonempty := (isNumericForm_iff.mp formed.major).1
  simp [chars, frontChars, dotted, List.intercalate, nonempty]

theorem isVersionChar_of_mem_dotted {pieces : List (List Char)}
    (forms : ∀ piece ∈ pieces, isBuildForm piece = true) {c : Char} (member : c ∈ dotted pieces) :
    isVersionChar c = true := by
  rcases mem_dotted member with rfl | ⟨piece, among, inside⟩
  · decide
  · exact isVersionChar_of_isIdentifierChar
      (isIdentifierChar_of_mem_of_isBuildForm (forms piece among) inside)

theorem isVersionChar_of_mem_behind {separator : Char} (separates : isVersionChar separator = true)
    {pieces : List (List Char)} (forms : ∀ piece ∈ pieces, isBuildForm piece = true) {c : Char}
    (member : c ∈ behind separator (joined pieces)) : isVersionChar c = true := by
  unfold joined at member
  split at member
  · cases member
  · rcases List.mem_cons.mp member with rfl | inside
    · exact separates
    · exact isVersionChar_of_mem_dotted forms inside

theorem isVersionChar_of_mem_chars {w : WrittenVersion} (formed : w.Formed) {c : Char}
    (member : c ∈ w.chars) : isVersionChar c = true := by
  simp only [chars, frontChars, List.mem_append] at member
  rcases member with (main | prerelease) | build
  · refine isVersionChar_of_mem_dotted ?_ main
    simp [isBuildForm_of_isNumericForm, formed.major, formed.minor, formed.patch]
  · exact isVersionChar_of_mem_behind (by decide)
      (fun piece among => isBuildForm_of_isPrereleaseForm (formed.prerelease piece among))
      prerelease
  · exact isVersionChar_of_mem_behind (by decide) formed.build build

end WrittenVersion

end VersionRange
