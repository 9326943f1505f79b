import VersionRange.Proofs.Version.Built

/-!
# The grammar of version texts

The grammar of semantic versions as productions, with the pieces of a text for its parse
tree.  A text of the grammar whose runs of digits are short enough is read, and any other
text is refused as a version.  What is read says what the pieces say: it is written like
the text and can be built again from its five fields.
-/

namespace VersionRange

open Fallible

namespace VersionGrammar

inductive NumericIdentifier : List Char → Prop
  | zero : NumericIdentifier ['0']
  | positive {first : Char} {rest : List Char} (notZero : first ≠ '0')
      (digits : ∀ c ∈ first :: rest, c.isDigit = true) : NumericIdentifier (first :: rest)

/-- Letters, digits and hyphens, and not digits alone. -/
inductive AlphanumericIdentifier : List Char → Prop
  | around {front back : List Char} {c : Char} (notDigit : c.isAlpha = true ∨ c = '-')
      (others : ∀ d ∈ front ++ back, d.isAlpha = true ∨ d.isDigit = true ∨ d = '-') :
      AlphanumericIdentifier (front ++ c :: back)

inductive PrereleaseIdentifier : List Char → Prop
  | numeric {piece : List Char} (form : NumericIdentifier piece) : PrereleaseIdentifier piece
  | alphanumeric {piece : List Char} (form : AlphanumericIdentifier piece) :
      PrereleaseIdentifier piece

/-- In a build, digits may start with a zero. -/
inductive BuildIdentifier : List Char → Prop
  | digits {first : Char} {rest : List Char} (digits : ∀ c ∈ first :: rest, c.isDigit = true) :
      BuildIdentifier (first :: rest)
  | alphanumeric {piece : List Char} (form : AlphanumericIdentifier piece) : BuildIdentifier piece

/-- One or more identifiers with dots between them. -/
inductive DotSeparated (identifier : List Char → Prop) : List (List Char) → List Char → Prop
  | last {piece : List Char} (form : identifier piece) : DotSeparated identifier [piece] piece
  | cons {piece : List Char} {pieces : List (List Char)} {text : List Char}
      (form : identifier piece) (others : DotSeparated identifier pieces text) :
      DotSeparated identifier (piece :: pieces) (piece ++ '.' :: text)

/-- Nothing, or identifiers behind a mark. -/
inductive Suffix (mark : Char) (identifier : List Char → Prop) :
    List (List Char) → List Char → Prop
  | absent : Suffix mark identifier [] []
  | present {pieces : List (List Char)} {text : List Char}
      (identifiers : DotSeparated identifier pieces text) :
      Suffix mark identifier pieces (mark :: text)

inductive VersionText : WrittenVersion → List Char → Prop
  | intro {major minor patch prereleaseText buildText : List Char}
      {prerelease build : List (List Char)} (majorForm : NumericIdentifier major)
      (minorForm : NumericIdentifier minor) (patchForm : NumericIdentifier patch)
      (prereleaseForm : Suffix '-' PrereleaseIdentifier prerelease prereleaseText)
      (buildForm : Suffix '+' BuildIdentifier build buildText) :
      VersionText ⟨major, minor, patch, prerelease, build⟩
        (major ++ '.' :: (minor ++ '.' :: (patch ++ (prereleaseText ++ buildText))))

theorem numericIdentifier_iff {digits : List Char} :
    NumericIdentifier digits ↔ isNumericForm digits = true := by
  rw [isNumericForm_iff]
  constructor
  · intro form
    cases form with
    | zero => exact ⟨by simp, by simp, fun _ => rfl⟩
    | positive notZero digits =>
        exact ⟨by simp, digits, fun head => absurd (Option.some.inj head) notZero⟩
  · rintro ⟨nonempty, allDigits, noZero⟩
    obtain ⟨first, rest, rfl⟩ := List.exists_cons_of_ne_nil nonempty
    by_cases zero : first = '0'
    · subst zero
      rw [noZero rfl]
      exact .zero
    · exact .positive zero allDigits

theorem isIdentifierChar_iff {c : Char} :
    isIdentifierChar c = true ↔ c.isAlpha = true ∨ c.isDigit = true ∨ c = '-' := by
  simp [isIdentifierChar, Char.isAlphanum, or_assoc]

theorem not_isDigit_of_isAlpha {c : Char} (alpha : c.isAlpha = true) : c.isDigit = false := by
  by_contra digit
  have digitCode := Char.isDigit_iff_toNat.mp (by simpa using digit)
  have alphaCode := toNat_of_isAlpha alpha
  change 48 ≤ c.toNat ∧ c.toNat ≤ 57 at digitCode
  omega

theorem alphanumericIdentifier_iff {piece : List Char} :
    AlphanumericIdentifier piece ↔
      isBuildForm piece = true ∧ piece.all Char.isDigit = false := by
  constructor
  · intro form
    cases form with
    | @around front back c notDigit others =>
        have single : isIdentifierChar c = true ∧ c.isDigit = false := by
          rcases notDigit with alpha | rfl
          · exact ⟨isIdentifierChar_iff.mpr (.inl alpha), not_isDigit_of_isAlpha alpha⟩
          · decide
        have allowed : ∀ d ∈ front ++ back, isIdentifierChar d = true :=
          fun d member => isIdentifierChar_iff.mpr (others d member)
        rw [List.forall_mem_append] at allowed
        constructor
        · simp only [isBuildForm, List.all_append, List.all_cons, Bool.and_eq_true,
            List.all_eq_true]
          exact ⟨by simp, allowed.1, single.1, allowed.2⟩
        · simp [single.2]
  · rintro ⟨form, notAll⟩
    obtain ⟨c, member, notDigit⟩ := List.all_eq_false.mp notAll
    have allowed {d : Char} (inside : d ∈ piece) : d.isAlpha = true ∨ d.isDigit = true ∨ d = '-' :=
      isIdentifierChar_iff.mp (isIdentifierChar_of_mem_of_isBuildForm form inside)
    have single : c.isAlpha = true ∨ c = '-' := (allowed member).imp_right fun rest =>
      rest.resolve_left notDigit
    obtain ⟨front, back, rfl⟩ := List.append_of_mem member
    refine .around single fun d among => allowed ?_
    simp only [List.mem_append, List.mem_cons] at among ⊢
    tauto

theorem prereleaseIdentifier_iff {piece : List Char} :
    PrereleaseIdentifier piece ↔ isPrereleaseForm piece = true := by
  have cases : PrereleaseIdentifier piece ↔
      NumericIdentifier piece ∨ AlphanumericIdentifier piece :=
    ⟨fun form => by cases form <;> simp [*], fun form => form.elim .numeric .alphanumeric⟩
  rw [cases, numericIdentifier_iff, alphanumericIdentifier_iff]
  simp only [isPrereleaseForm, Bool.and_eq_true, Bool.or_eq_true, Bool.not_eq_true']
  constructor
  · rintro (numeric | ⟨form, notAll⟩)
    · exact ⟨isBuildForm_of_isNumericForm numeric, .inr numeric⟩
    · exact ⟨form, .inl notAll⟩
  · rintro ⟨form, notAll | numeric⟩
    · exact .inr ⟨form, notAll⟩
    · exact .inl numeric

theorem buildIdentifier_iff {piece : List Char} :
    BuildIdentifier piece ↔ isBuildForm piece = true := by
  constructor
  · intro form
    cases form with
    | @digits first rest allDigits =>
        have allowed : (first :: rest).all isIdentifierChar = true :=
          List.all_eq_true.mpr fun c member => isIdentifierChar_of_isDigit (allDigits c member)
        rw [isBuildForm, allowed]
        rfl
    | alphanumeric form => exact (alphanumericIdentifier_iff.mp form).1
  · intro form
    cases digits : piece.all Char.isDigit with
    | false => exact .alphanumeric (alphanumericIdentifier_iff.mpr ⟨form, digits⟩)
    | true =>
        cases piece with
        | nil => cases form
        | cons first rest => exact .digits (List.all_eq_true.mp digits)

theorem dotSeparated_iff {identifier : List Char → Prop} {pieces : List (List Char)}
    {text : List Char} :
    DotSeparated identifier pieces text ↔
      pieces ≠ [] ∧ (∀ piece ∈ pieces, identifier piece) ∧ text = dotted pieces := by
  have dotted_cons (piece next : List Char) (rest : List (List Char)) :
      dotted (piece :: next :: rest) = piece ++ '.' :: dotted (next :: rest) := by
    simp [dotted, List.intercalate]
  constructor
  · intro separated
    induction separated with
    | last form => simpa [dotted] using form
    | @cons piece pieces text form others ih =>
        obtain ⟨nonempty, forms, rfl⟩ := ih
        obtain ⟨next, rest, rfl⟩ := List.exists_cons_of_ne_nil nonempty
        exact ⟨by simp, List.forall_mem_cons.mpr ⟨form, forms⟩, (dotted_cons piece next rest).symm⟩
  · rintro ⟨nonempty, forms, rfl⟩
    induction pieces with
    | nil => exact absurd rfl nonempty
    | cons piece rest ih =>
        obtain ⟨form, others⟩ := List.forall_mem_cons.mp forms
        cases rest with
        | nil => simpa [dotted] using DotSeparated.last form
        | cons next rest =>
            rw [dotted_cons]
            exact .cons form (ih (by simp) others)

theorem suffix_iff {mark : Char} {identifier : List Char → Prop} {pieces : List (List Char)}
    {text : List Char} :
    Suffix mark identifier pieces text ↔
      (∀ piece ∈ pieces, identifier piece) ∧
        text = behind mark (WrittenVersion.joined pieces) := by
  constructor
  · intro suffix
    cases suffix with
    | absent => exact ⟨by simp, rfl⟩
    | present identifiers =>
        obtain ⟨nonempty, forms, rfl⟩ := dotSeparated_iff.mp identifiers
        exact ⟨forms, by simp [WrittenVersion.joined, nonempty, behind]⟩
  · rintro ⟨forms, rfl⟩
    by_cases none : pieces = []
    · subst none
      exact .absent
    · simp only [WrittenVersion.joined, List.isEmpty_iff, none, if_false, behind]
      exact .present (dotSeparated_iff.mpr ⟨none, forms, rfl⟩)

theorem versionText_iff {w : WrittenVersion} {text : List Char} :
    VersionText w text ↔ w.Formed ∧ w.chars = text := by
  constructor
  · intro whole
    cases whole with
    | intro majorForm minorForm patchForm prereleaseForm buildForm =>
        obtain ⟨prereleaseForms, rfl⟩ := suffix_iff.mp prereleaseForm
        obtain ⟨buildForms, rfl⟩ := suffix_iff.mp buildForm
        refine ⟨⟨numericIdentifier_iff.mp majorForm, numericIdentifier_iff.mp minorForm,
          numericIdentifier_iff.mp patchForm,
          fun piece member => prereleaseIdentifier_iff.mp (prereleaseForms piece member),
          fun piece member => buildIdentifier_iff.mp (buildForms piece member)⟩, ?_⟩
        simp [WrittenVersion.chars, WrittenVersion.frontChars, dotted, List.intercalate]
  · rintro ⟨formed, rfl⟩
    have tree := VersionText.intro (numericIdentifier_iff.mpr formed.major)
      (numericIdentifier_iff.mpr formed.minor) (numericIdentifier_iff.mpr formed.patch)
      (suffix_iff.mpr
        ⟨fun piece member => prereleaseIdentifier_iff.mpr (formed.prerelease piece member), rfl⟩)
      (suffix_iff.mpr
        ⟨fun piece member => buildIdentifier_iff.mpr (formed.build piece member), rfl⟩)
    simpa [WrittenVersion.chars, WrittenVersion.frontChars, dotted, List.intercalate] using tree

theorem versionText_iff_read? {w : WrittenVersion} {text : List Char} :
    VersionText w text ↔ WrittenVersion.read? text = some w := by
  rw [versionText_iff, WrittenVersion.read?_eq_some_iff]

end VersionGrammar

namespace Version

open VersionGrammar

/-- A text of the grammar whose three numbers are short enough to be read, and one of whose
prerelease numbers is not. -/
def Overlong (text : List Char) : Prop :=
  ∃ w, VersionText w text ∧
    (∀ digits ∈ [w.major, w.minor, w.patch], digits.length ≤ digitLimit) ∧
      ∃ piece ∈ w.prerelease, (∀ c ∈ piece, c.isDigit = true) ∧ digitLimit < piece.length

theorem parseChars_numeral_iff_overlong {text : List Char} :
    (∃ cause, parseChars text = .error (.numeral cause)) ↔ Overlong text := by
  rw [parseChars_numeral_iff]
  simp only [Overlong, versionText_iff_read?, List.all_eq_true]

theorem overlong_of_digits {digits : List Char} (form : isNumericForm digits = true)
    (long : digitLimit < digits.length) : Overlong ("1.0.0-".toList ++ digits) := by
  have numeric := numericIdentifier_iff.mpr form
  refine ⟨⟨['1'], ['0'], ['0'], [digits], []⟩, ?_, by simp [digitLimit], digits, by simp,
    (isNumericForm_iff.mp form).2.1, long⟩
  have one : NumericIdentifier ['1'] := numericIdentifier_iff.mpr (by decide)
  have tree := VersionText.intro one .zero .zero
    (.present (.last (.numeric numeric)) : Suffix '-' PrereleaseIdentifier [digits] ('-' :: digits))
    (.absent : Suffix '+' BuildIdentifier [] [])
  simpa using tree

end Version

end VersionRange
