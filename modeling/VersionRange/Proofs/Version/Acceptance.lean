import VersionRange.Proofs.Version.Grammar

/-!
# Which version texts are accepted

A version text whose runs of digits are short enough to be converted is read exactly if
the grammar has a parse tree for it, and is refused as a version if not.  The version
that is read says what the pieces of the parse tree say: a prerelease identifier is a
number exactly if its piece consists of digits.  Nothing is lost on the way, so that the
version is written like the text, and is built again from its five fields.
-/

namespace VersionRange

open Fallible VersionGrammar

/-- Every run of digits in the text is short enough to be converted to a number. -/
def ShortRuns (text : List Char) : Prop :=
  ∀ run, run <:+: text → (∀ c ∈ run, c.isDigit = true) → run.length ≤ digitLimit

theorem ShortRuns.mono {part text : List Char} (short : ShortRuns text) (inside : part <:+: text) :
    ShortRuns part :=
  fun run among digits => short run (among.trans inside) digits

theorem shortRuns_of_length_le {text : List Char} (few : text.length ≤ digitLimit) :
    ShortRuns text :=
  fun _ inside _ => inside.length_le.trans few

namespace VersionGrammar

theorem DotSeparated.occurs {identifier : List Char → Prop} {pieces : List (List Char)}
    {text : List Char} (separated : DotSeparated identifier pieces text) {piece : List Char}
    (member : piece ∈ pieces) : piece <:+: text := by
  induction separated with
  | last form =>
      obtain rfl := List.mem_singleton.mp member
      exact List.infix_rfl
  | cons form others ih =>
      rcases List.mem_cons.mp member with rfl | later
      · exact List.infix_append_left
      · exact List.infix_append_of_infix_right (List.infix_cons (ih later))

theorem Suffix.occurs {mark : Char} {identifier : List Char → Prop} {pieces : List (List Char)}
    {text : List Char} (suffix : Suffix mark identifier pieces text) {piece : List Char}
    (member : piece ∈ pieces) : piece <:+: text := by
  cases suffix with
  | absent => cases member
  | present identifiers => exact List.infix_cons (identifiers.occurs member)

/-- All numbers that are read from a text are runs of digits in it. -/
theorem VersionText.shortRuns {w : WrittenVersion} {text : List Char} (tree : VersionText w text)
    (short : ShortRuns text) :
    ∀ piece ∈ [w.major, w.minor, w.patch] ++ w.prerelease, ShortRuns piece := by
  cases tree with
  | intro majorForm minorForm patchForm prereleaseForm buildForm =>
      have behindMajor := short.mono (List.infix_append_of_infix_right
        (List.infix_cons List.infix_rfl))
      have behindMinor := behindMajor.mono (List.infix_append_of_infix_right
        (List.infix_cons List.infix_rfl))
      have suffixes := behindMinor.mono (List.infix_append_of_infix_right List.infix_rfl)
      simp only [List.forall_mem_append, List.forall_mem_cons, List.not_mem_nil, false_imp_iff,
        implies_true, and_true]
      refine ⟨⟨short.mono List.infix_append_left, behindMajor.mono List.infix_append_left,
        behindMinor.mono List.infix_append_left⟩, fun piece member => ?_⟩
      exact suffixes.mono (List.infix_append_of_infix_left (prereleaseForm.occurs member))

end VersionGrammar

namespace Identifier

/-- The value that an identifier is built from. -/
def value : Identifier → Value
  | numeric number => .int number
  | word text => .text text

end Identifier

theorem inRanges_eq_false {ranges : List (Nat × Nat)} {c : Char}
    (below : ∀ range ∈ ranges, c.toNat < range.1) : inRanges ranges c = false := by
  rw [inRanges, List.any_eq_false]
  intro range member
  have low := below range member
  simp only [Bool.and_eq_true, decide_eq_true_eq]
  omega

theorem toNat_lt_of_isIdentifierChar {c : Char} (identifier : isIdentifierChar c = true) :
    c.toNat < 128 := by
  simp only [isIdentifierChar, Bool.or_eq_true, decide_eq_true_eq] at identifier
  rcases identifier with alphanumeric | rfl
  · have range := toNat_of_isAlphanum alphanumeric
    omega
  · decide

/-- Among the characters of identifiers there are no digits but the ten of every numeral. -/
theorem isUnicodeDigit_eq_isDigit {c : Char} (identifier : isIdentifierChar c = true) :
    isUnicodeDigit c = c.isDigit := by
  have small := toNat_lt_of_isIdentifierChar identifier
  have scripts : ∀ range ∈ decimalDigitRanges.tail, 128 ≤ range.1 := by decide
  have others : ∀ range ∈ otherDigitRanges, 128 ≤ range.1 := by decide
  have noScript : inRanges decimalDigitRanges.tail c = false :=
    inRanges_eq_false fun range member => small.trans_le (scripts range member)
  have noOther : inRanges otherDigitRanges c = false :=
    inRanges_eq_false fun range member => small.trans_le (others range member)
  have ten : inRanges [(0x30, 0x39)] c = c.isDigit := by
    rw [Bool.eq_iff_iff, Char.isDigit_iff_toNat]
    simp [inRanges]
  have split : decimalDigitRanges = [(0x30, 0x39)] ++ decimalDigitRanges.tail := rfl
  rw [isUnicodeDigit, isDecimalDigit, split, inRanges_append, noScript, noOther, ten,
    Bool.or_false, Bool.or_false]

theorem allUnicodeDigits_eq {text : String} (form : isBuildForm text.toList = true) :
    allUnicodeDigits text = text.toList.all Char.isDigit := by
  have nonempty : text.isEmpty = false := by
    rw [String.isEmpty_eq_false_iff]
    rintro rfl
    cases form
  have digits : text.toList.all isUnicodeDigit = text.toList.all Char.isDigit := by
    rw [Bool.eq_iff_iff, List.all_eq_true, List.all_eq_true]
    refine forall₂_congr fun c member => ?_
    rw [isUnicodeDigit_eq_isDigit (isIdentifierChar_of_mem_of_isBuildForm form member)]
  rw [allUnicodeDigits, nonempty, digits, Bool.not_false, Bool.true_and]

namespace Version

theorem identifierOfValue_value {i : Identifier} (readable : i.Readable) :
    identifierOfValue i.value = .ok i := by
  cases i with
  | numeric number => simp [Identifier.value, identifierOfValue]
  | word text =>
      obtain ⟨form, notAll⟩ := readable
      have noDot : '.' ∉ text.toList := WrittenVersion.dot_not_mem_of_isBuildForm form
      simp [Identifier.value, identifierOfValue, allUnicodeDigits_eq form, notAll, noDot]

theorem buildOfValues_text {pieces : List String}
    (forms : ∀ piece ∈ pieces, isBuildForm piece.toList = true) :
    buildOfValues (pieces.map .text) = .ok pieces := by
  have noDot (piece : String) (member : piece ∈ pieces) : '.' ∉ piece.toList :=
    WrittenVersion.dot_not_mem_of_isBuildForm (forms piece member)
  have kept {keep : Value → Option String}
      (each : ∀ piece ∈ pieces, (keep ∘ Value.text) piece = some piece) :
      (pieces.map Value.text).filterMap keep = pieces := by
    rw [List.filterMap_map, List.filterMap_congr each, List.filterMap_some]
  rw [buildOfValues, kept, List.length_map, if_pos rfl]
  intro piece member
  simp [noDot piece member]

/-- A version from the values of its five fields. -/
def rebuilt (v : Version) : Except Fault Version :=
  build? (.int v.major) (.int v.minor) (.int v.patch) (.list (v.prerelease.map Identifier.value))
    (.list (v.build.map .text))

theorem rebuilt_of_readable {v : Version} (readable : v.Readable) : v.rebuilt = .ok v := by
  have identifiers : (v.prerelease.map Identifier.value).mapM identifierOfValue =
      .ok v.prerelease := by
    rw [mapM_eq_ok_iff, List.forall₂_map_left_iff, List.forall₂_same]
    exact fun i member => identifierOfValue_value (readable.prerelease i member)
  simp only [rebuilt, build?, partOfValue, Value.members, Int.natCast_nonneg, if_true, ok_bind,
    identifiers, buildOfValues_text readable.build, Int.natAbs_natCast]
  exact checked_of_readable readable

/-- The pieces of a version text, as a version says them. -/
structure Says (v : Version) (w : WrittenVersion) : Prop where
  major : numeralChars v.major = w.major
  minor : numeralChars v.minor = w.minor
  patch : numeralChars v.patch = w.patch
  prerelease : List.Forall₂
    (fun i piece => i.chars = piece ∧ ((∃ n, i = .numeric n) ↔ ∀ c ∈ piece, c.isDigit = true))
    v.prerelease w.prerelease
  build : v.build.map String.toList = w.build

theorem says_written {v : Version} (readable : v.Readable) : v.Says v.written where
  major := rfl
  minor := rfl
  patch := rfl
  prerelease := by
    rw [written, List.forall₂_map_right_iff, List.forall₂_same]
    intro i member
    refine ⟨rfl, ?_⟩
    cases i with
    | numeric n => simpa [Identifier.chars] using fun _ => isDigit_of_mem_numeralChars
    | word text =>
        have notAll := (readable.prerelease _ member).2
        simpa [Identifier.chars] using List.all_eq_false.mp notAll
  build := rfl

theorem exists_parseChars {w : WrittenVersion} {text : List Char} (tree : VersionText w text)
    (short : ShortRuns text) : ∃ v, parseChars text = .ok v := by
  obtain ⟨formed, rfl⟩ := versionText_iff.mp tree
  have shortPieces := tree.shortRuns short
  have numeral {digits : List Char} (form : isNumericForm digits = true)
      (shortDigits : ShortRuns digits) : readNumeral digits = .ok (digitsValue digits) :=
    if_pos (shortDigits digits List.infix_rfl (isNumericForm_iff.mp form).2.1)
  simp only [List.forall_mem_append, List.forall_mem_cons, List.not_mem_nil, false_imp_iff,
    implies_true, and_true] at shortPieces
  obtain ⟨⟨shortMajor, shortMinor, shortPatch⟩, shortIdentifiers⟩ := shortPieces
  have identifiers : ∀ piece ∈ w.prerelease, ∃ i, Identifier.read piece = .ok i := by
    intro piece member
    cases outcome : Identifier.read piece with
    | ok i => exact ⟨i, rfl⟩
    | error fault =>
        obtain ⟨digits, long⟩ := read_fails_iff.mp ⟨fault, outcome⟩
        have few := shortIdentifiers piece member piece List.infix_rfl (List.all_eq_true.mp digits)
        omega
  obtain ⟨prerelease, read⟩ := mapM_succeeds_iff.mpr identifiers
  have allowed : (w.chars.isEmpty || !w.chars.all isVersionChar) = false := by
    have characters : w.chars.all isVersionChar = true :=
      List.all_eq_true.mpr fun _ => WrittenVersion.isVersionChar_of_mem_chars formed
    simp [characters, WrittenVersion.chars_ne_nil formed]
  have form : WrittenVersion.read? w.chars = some w := versionText_iff_read?.mp tree
  refine ⟨⟨digitsValue w.major, digitsValue w.minor, digitsValue w.patch, prerelease,
    w.build.map String.ofList⟩, ?_⟩
  simp [parseChars, allowed, form, numeral formed.major shortMajor,
    numeral formed.minor shortMinor, numeral formed.patch shortPatch, read, liftNumeral,
    Except.mapError]

theorem refused_of_no_tree {text : List Char} (noTree : ¬∃ w, VersionText w text) :
    ∃ cause, parseChars text = .error (.version cause) := by
  have unread : WrittenVersion.read? text = none := by
    cases form : WrittenVersion.read? text with
    | none => rfl
    | some w => exact absurd ⟨w, versionText_iff_read?.mpr form⟩ noTree
  unfold parseChars
  split
  · exact ⟨_, rfl⟩
  · rw [unread]
    exact ⟨_, rfl⟩

/-- Among the texts whose runs of digits are short enough, those of the grammar are read and
all others refused as versions.  A version that is read says what its text says, is written
like it, is read again from what is written, and is built again from its fields. -/
theorem parse_accepts_grammar (text : String) (short : ShortRuns text.toList) :
    ((∃ v, parse text = .ok v) ↔ ∃ w, VersionText w text.toList) ∧
      ((¬∃ w, VersionText w text.toList) → ∃ cause, parse text = .error (.version cause)) ∧
        ∀ v, parse text = .ok v →
          v.text = text ∧ parse v.text = .ok v ∧ v.rebuilt = .ok v ∧
            ∃ w, VersionText w text.toList ∧ v.Says w := by
  have tree {v : Version} (read : parse text = .ok v) : VersionText v.written text.toList := by
    obtain ⟨readable, rfl⟩ := parse_eq_ok_iff.mp read
    exact versionText_iff.mpr ⟨formed_written readable, by rw [chars_written, toList_text]⟩
  refine ⟨⟨?_, ?_⟩, refused_of_no_tree, fun v read => ?_⟩
  · rintro ⟨v, read⟩
    exact ⟨v.written, tree read⟩
  · rintro ⟨w, whole⟩
    exact exists_parseChars whole short
  · obtain ⟨readable, same⟩ := parse_eq_ok_iff.mp read
    exact ⟨same, by rwa [same], rebuilt_of_readable readable, v.written, tree read,
      says_written readable⟩

/-- A prerelease with a number, a word that begins with zeros and a hyphen alone, and a build
that begins with zeros; and a prerelease number that begins with a zero. -/
theorem parse_accepts_grammar_of_zeros :
    (∃ v, parse "1.20.3-0.00a.-+007" = .ok v ∧
      v.prerelease = [.numeric 0, .word "00a", .word "-"] ∧ v.text = "1.20.3-0.00a.-+007") ∧
      ∃ cause, parse "1.2.3-01" = .error (.version cause) := by
  constructor
  · have short : ShortRuns "1.20.3-0.00a.-+007".toList := shortRuns_of_length_le (by decide)
    have read : parse "1.20.3-0.00a.-+007" =
        .ok ⟨1, 20, 3, [.numeric 0, .word "00a", .word "-"], ["007"]⟩ := by rfl
    exact ⟨_, read, rfl, ((parse_accepts_grammar _ short).2.2 _ read).1⟩
  · have short : ShortRuns "1.2.3-01".toList := shortRuns_of_length_le (by decide)
    have unread : WrittenVersion.read? "1.2.3-01".toList = none := by decide
    apply (parse_accepts_grammar _ short).2.1
    rintro ⟨w, tree⟩
    rw [versionText_iff_read?, unread] at tree
    cases tree

end Version

end VersionRange
