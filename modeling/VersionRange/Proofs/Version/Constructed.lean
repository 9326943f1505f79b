import VersionRange.Proofs.Version.Acceptance

/-!
# Versions built from values

What a version is known to satisfy once it has been built from values.  All of it ranks by
its written form alone.  The identifiers are cut out of that form again, unless a word of
the prerelease holds a plus sign: such a version is written like another one, which ranks
the same and has a shorter prerelease.
-/

namespace VersionRange

open Fallible VersionGrammar

theorem cutAt_fst (separator : Char) (text : List Char) :
    (cutAt separator text).1 = text.takeWhile (· ≠ separator) := by
  induction text with
  | nil => rfl
  | cons c rest ih =>
      by_cases same : c = separator
      · simp [cutAt, same]
      · simp [cutAt, same, ih]

namespace Version

/-- The numbers and the prerelease that counts stand in front of the first plus sign. -/
theorem front_chars (v : Version) :
    cutAt '-' (cutAt '+' v.chars).1 =
      (v.mainChars, if v.isPrerelease then some v.rankedPrerelease else none) := by
  have noPlus : '+' ∉ v.mainChars := v.not_mem_mainChars (by decide) (by decide)
  have noHyphen : '-' ∉ v.mainChars := v.not_mem_mainChars (by decide) (by decide)
  have inMain : ∀ c ∈ v.mainChars, decide (c ≠ '+') = true := by
    intro c member
    simpa using ne_of_mem_of_not_mem member noPlus
  have build : (if v.build.isEmpty then [] else '+' :: v.buildChars).takeWhile (· ≠ '+') = [] := by
    split <;> simp
  rw [cutAt_fst, chars, List.append_assoc, List.takeWhile_append_of_pos inMain]
  by_cases release : v.prerelease = []
  · have front := cutAt_append_behind noHyphen none
    have isPrerelease : v.isPrerelease = false := by simpa [Version.isPrerelease] using release
    rw [if_pos (by simpa using release), List.nil_append, build, isPrerelease]
    exact front
  · have front := cutAt_append_behind noHyphen (some v.rankedPrerelease)
    have ranked :
        (v.prereleaseChars ++ if v.build.isEmpty then [] else '+' :: v.buildChars).takeWhile
          (· ≠ '+') = v.rankedPrerelease := by
      rw [List.takeWhile_append, build, List.append_nil, rankedPrerelease]
      split
      next whole => exact (List.IsPrefix.eq_of_length (List.takeWhile_prefix _) whole).symm
      · rfl
    have isPrerelease : v.isPrerelease = true := by simpa [Version.isPrerelease] using release
    rw [if_neg (by simpa using release), List.cons_append,
      List.takeWhile_cons_of_pos (by decide), ranked, isPrerelease]
    exact front

theorem main_eq_of_mainChars {v w : Version} (same : v.mainChars = w.mainChars) :
    v.main = w.main := by
  have noDot (n : Nat) : '.' ∉ numeralChars n := fun member =>
    absurd (isDigit_of_mem_numeralChars member) (by decide)
  have pieces (u : Version) : u.mainChars.splitOn '.' =
      [numeralChars u.major, numeralChars u.minor, numeralChars u.patch] :=
    splitOn_dotted (by simp) (by simp [noDot])
  have numerals := pieces v
  rw [same, pieces w] at numerals
  simpa [main, numeralChars_injective.eq_iff, eq_comm] using numerals

section SameChars

variable {v w : Version} (same : v.chars = w.chars)

include same

theorem main_eq_of_chars : v.main = w.main := by
  have front := v.front_chars
  rw [same, w.front_chars, Prod.mk.injEq] at front
  exact main_eq_of_mainChars front.1.symm

theorem isPrerelease_eq_of_chars : v.isPrerelease = w.isPrerelease := by
  have front := v.front_chars
  rw [same, w.front_chars, Prod.mk.injEq] at front
  cases left : v.isPrerelease <;> cases right : w.isPrerelease <;> simp [left, right] at front ⊢

theorem rankedPrerelease_eq_of_chars : v.rankedPrerelease = w.rankedPrerelease := by
  have kind := isPrerelease_eq_of_chars same
  have front := v.front_chars
  rw [same, w.front_chars, Prod.mk.injEq] at front
  cases prerelease : v.isPrerelease with
  | false =>
      rw [rankedPrerelease_of_release prerelease, rankedPrerelease_of_release (kind ▸ prerelease)]
  | true => simpa [← kind, prerelease, eq_comm] using front.2

end SameChars

/-- Versions rank by what is written. -/
theorem compare_eq_of_chars {v v' w w' : Version} (left : v.chars = v'.chars)
    (right : w.chars = w'.chars) : v.compare w = v'.compare w' := by
  have leftMain := main_eq_of_chars left
  have rightMain := main_eq_of_chars right
  simp only [main, Prod.mk.injEq] at leftMain rightMain
  simp only [compare, leftMain, rightMain, rankedPrerelease_eq_of_chars left,
    rankedPrerelease_eq_of_chars right]

/-- Some values for the five fields make up the version. -/
def Constructed (v : Version) : Prop :=
  ∃ major minor patch prerelease build, build? major minor patch prerelease build = .ok v

theorem eq_of_checked {v w : Version} (built : checked v = .ok w) : v = w := by
  simp only [checked, bind_eq_ok_iff] at built
  obtain ⟨-, -, -, -, last⟩ := built
  split at last
  · cases last
  · split at last
    · cases last
    · cases last
      rfl

theorem isWritableNumeral_of_ok {n m : Nat} (passed : liftNumeral (writableNumeral n) = .ok m) :
    isWritableNumeral n = true := by
  by_contra refused
  simp [writableNumeral, refused, liftNumeral, Except.mapError] at passed

/-- A version that passed the check has numbers that can be written. -/
theorem writable_of_checked {v : Version} (built : checked v = .ok v) :
    (isWritableNumeral v.major = true ∧ isWritableNumeral v.minor = true ∧
        isWritableNumeral v.patch = true) ∧
      ∀ n, .numeric n ∈ v.prerelease → isWritableNumeral n = true := by
  simp only [checked, bind_eq_ok_iff, List.forIn_cons, List.forIn_nil, pure_eq_ok,
    Except.ok.injEq] at built
  obtain ⟨_, ⟨_, ⟨_, major, rfl⟩, others⟩, _, loop, -⟩ := built
  simp only [bind_eq_ok_iff, Except.ok.injEq] at others
  obtain ⟨_, ⟨_, minor, rfl⟩, others⟩ := others
  simp only [bind_eq_ok_iff, Except.ok.injEq] at others
  obtain ⟨_, ⟨_, patch, rfl⟩, -⟩ := others
  refine ⟨⟨isWritableNumeral_of_ok major, isWritableNumeral_of_ok minor,
    isWritableNumeral_of_ok patch⟩, ?_⟩
  clear major minor patch
  -- What is left has been passed by the loop over the identifiers.
  generalize v.prerelease = remaining at loop
  induction remaining with
  | nil => simp
  | cons i rest ih =>
      rw [List.forIn_cons, bind_eq_ok_iff] at loop
      obtain ⟨_, first, later⟩ := loop
      cases i with
      | numeric n =>
          obtain ⟨_, passed, yielded⟩ := bind_eq_ok_iff.mp first
          cases yielded
          intro m member
          rcases List.mem_cons.mp member with same | among
          · cases same
            exact isWritableNumeral_of_ok passed
          · exact ih later m among
      | word text =>
          cases first
          intro m member
          exact ih later m (by simpa using member)

/-- What holds of every version that was built: it passed the check, a word of the
prerelease has no dot and is not made of digits, and no piece of the build has a dot. -/
structure Sound (v : Version) : Prop where
  passed : checked v = .ok v
  words : ∀ text, .word text ∈ v.prerelease → allUnicodeDigits text = false ∧ '.' ∉ text.toList
  build : ∀ piece ∈ v.build, '.' ∉ piece.toList

theorem sound_word_of_identifierOfValue {item : Value} {text : String}
    (read : identifierOfValue item = .ok (.word text)) :
    allUnicodeDigits text = false ∧ '.' ∉ text.toList := by
  unfold identifierOfValue at read
  split at read
  · split at read <;> cases read
  · split at read
    · cases read
    next allowed =>
      cases read
      simpa using allowed
  · cases read

theorem no_dot_of_buildOfValues {items : List Value} {pieces : List String}
    (read : buildOfValues items = .ok pieces) {piece : String} (member : piece ∈ pieces) :
    '.' ∉ piece.toList := by
  simp only [buildOfValues] at read
  split at read
  · cases read
    obtain ⟨item, -, kept⟩ := List.mem_filterMap.mp member
    split at kept
    · split at kept
      · cases kept
      next noDot =>
        cases kept
        simpa using noDot
    · cases kept
  · cases read

theorem Constructed.sound {v : Version} (constructed : v.Constructed) : v.Sound := by
  obtain ⟨major, minor, patch, prerelease, build, built⟩ := constructed
  simp only [build?, bind_eq_ok_iff] at built
  obtain ⟨m, -, n, -, p, -, prereleaseItems, -, buildItems, -, identifiers, identifiersRead, pieces,
    piecesRead, built⟩ := built
  obtain rfl := eq_of_checked built
  refine ⟨built, fun text member => ?_, fun piece => no_dot_of_buildOfValues piecesRead⟩
  obtain ⟨item, -, read⟩ := exists_item_of_mapM identifiersRead member
  exact sound_word_of_identifierOfValue read

/-- What is written for a version that was built is a version text. -/
theorem Sound.exists_formed {v : Version} (sound : v.Sound) :
    ∃ w : WrittenVersion, w.Formed ∧ w.chars = v.chars := by
  cases form : WrittenVersion.read? v.chars with
  | none => exact absurd form (read?_ne_none_of_checked sound.passed)
  | some w => exact ⟨w, WrittenVersion.read?_eq_some_iff.mp form⟩

/-- The version is written like one that is read from a text. -/
def Legible (v : Version) : Prop :=
  ∃ u : Version, u.Readable ∧ u.chars = v.chars

theorem Readable.legible {v : Version} (readable : v.Readable) : v.Legible :=
  ⟨v, readable, rfl⟩

/-- A version that was built is legible, if only its numbers are short enough. -/
theorem Sound.legible {v : Version} (sound : v.Sound) (short : ShortRuns v.chars) :
    v.Legible := by
  obtain ⟨w, whole⟩ := sound.exists_formed
  obtain ⟨u, read⟩ := exists_parseChars (versionText_iff.mpr whole) short
  exact ⟨u, parseChars_eq_ok_iff.mp read⟩

/-- A version that was built and can be compared.  If one that was built is not legible, a piece
of digits in front of a plus sign in a word is longer than any numeral. -/
structure Ranked (v : Version) : Prop where
  passed : checked v = .ok v
  legible : v.Legible

theorem ranked_of_parse {text : String} {v : Version} (read : parse text = .ok v) : v.Ranked where
  passed := checked_of_readable (readable_of_parse read)
  legible := (readable_of_parse read).legible

/-- What is written for a version that was built is refused for a long number of the
prerelease at most. -/
theorem Sound.fault_of_parseChars {v : Version} (sound : v.Sound) {fault : Fault}
    (refused : parseChars v.chars = .error fault) : ∃ cause, fault = .numeral cause := by
  obtain ⟨w, formed, whole⟩ := sound.exists_formed
  obtain ⟨⟨major, minor, patch⟩, -⟩ := writable_of_checked sound.passed
  have numerals : [w.major, w.minor, w.patch] =
      [numeralChars v.major, numeralChars v.minor, numeralChars v.patch] := by
    have front : w.chars =
        dotted [numeralChars v.major, numeralChars v.minor, numeralChars v.patch] ++
          ((if v.prerelease.isEmpty then [] else '-' :: v.prereleaseChars) ++
            if v.build.isEmpty then [] else '+' :: v.buildChars) := by
      rw [whole, chars, List.append_assoc]
      rfl
    refine WrittenVersion.numbers_eq_of_chars formed (by simp) (by simp) (fun c head => ?_) front
    split at head
    · split at head <;> cases head
      decide
    · cases head
      decide
  simp only [List.cons.injEq, and_true] at numerals
  have numeral {n : Nat} (writable : isWritableNumeral n = true) :
      readNumeral (numeralChars n) = .ok n :=
    (readNumeral_eq_ok_iff (isNumericForm_numeralChars n)).mpr ⟨rfl, writable⟩
  have allowed : (v.chars.isEmpty || !v.chars.all isVersionChar) = false := by
    have characters : v.chars.all isVersionChar = true :=
      List.all_eq_true.mpr fun c member =>
        WrittenVersion.isVersionChar_of_mem_chars formed (by rwa [whole])
    simp [characters, chars_ne_nil]
  have form : WrittenVersion.read? v.chars = some w :=
    WrittenVersion.read?_eq_some_iff.mpr ⟨formed, whole⟩
  simp only [parseChars, allowed, form, numerals, numeral major, numeral minor, numeral patch,
    Bool.false_eq_true, if_false, bind_eq_error_iff, liftNumeral, mapError_eq_error_iff, pure_eq_ok,
    reduceCtorEq, and_false, exists_false, or_false] at refused
  obtain ⟨cause, -, rfl⟩ := refused
  exact ⟨cause, rfl⟩

/-- Some word of the prerelease holds a plus sign. -/
def HoldsPlus (v : Version) : Prop :=
  ∃ text, .word text ∈ v.prerelease ∧ '+' ∈ text.toList

theorem not_holdsPlus_of_readable {v : Version} (readable : v.Readable) : ¬v.HoldsPlus := by
  rintro ⟨text, member, plus⟩
  have form : isBuildForm text.toList = true := (readable.prerelease _ member).1
  exact absurd (isIdentifierChar_of_mem_of_isBuildForm form plus) (by decide)

theorem joined_injective {pieces others : List (List Char)} (noDot : ∀ piece ∈ pieces, '.' ∉ piece)
    (otherNoDot : ∀ piece ∈ others, '.' ∉ piece)
    (same : WrittenVersion.joined pieces = WrittenVersion.joined others) : pieces = others := by
  have cut {list : List (List Char)} (free : ∀ piece ∈ list, '.' ∉ piece) :
      WrittenVersion.pieces? (fun piece => !piece.contains '.') (WrittenVersion.joined list) =
        some list :=
    (WrittenVersion.pieces?_eq_some_iff (by simp)).mpr ⟨by simpa using free, rfl⟩
  have whole := cut noDot
  rw [same, cut otherNoDot] at whole
  exact (Option.some.inj whole).symm

/-- Without a plus sign in its words, the pieces of a version are cut out of its written form. -/
theorem Sound.written_eq {v : Version} (sound : v.Sound) (plain : ¬v.HoldsPlus)
    {w : WrittenVersion} (formed : w.Formed) (whole : w.chars = v.chars) :
    v.written.prerelease = w.prerelease ∧ v.written.build = w.build := by
  have identifiers (i : Identifier) (member : i ∈ v.prerelease) :
      '.' ∉ i.chars ∧ '+' ∉ i.chars := by
    cases i with
    | numeric n =>
        have digits (c : Char) (inside : c ∈ numeralChars n) := isDigit_of_mem_numeralChars inside
        exact ⟨fun dot => absurd (digits _ dot) (by decide),
          fun plus => absurd (digits _ plus) (by decide)⟩
    | word text => exact ⟨(sound.words text member).2, fun plus => plain ⟨text, member, plus⟩⟩
  have noPlus : '+' ∉ v.prereleaseChars := by
    intro plus
    rcases mem_dotted plus with dot | ⟨piece, among, inside⟩
    · cases dot
    · obtain ⟨i, member, rfl⟩ := List.mem_map.mp among
      exact (identifiers i member).2 inside
  have front : '+' ∉ v.written.frontChars := by
    have main : '+' ∉ v.mainChars := v.not_mem_mainChars (by decide) (by decide)
    change '+' ∉ v.mainChars ++ behind '-' (WrittenVersion.joined v.written.prerelease)
    unfold WrittenVersion.joined
    split
    · simpa [behind] using main
    · have tail : '+' ∉ dotted v.written.prerelease := noPlus
      simpa [behind, main] using tail
  rw [← chars_written, WrittenVersion.chars, WrittenVersion.chars] at whole
  -- Neither front holds a plus sign, and no number holds a hyphen, so both cut alike.
  have cutPlus := cutAt_append_behind (WrittenVersion.plus_not_mem_frontChars formed)
    (WrittenVersion.joined w.build)
  rw [whole, cutAt_append_behind front, Prod.mk.injEq] at cutPlus
  obtain ⟨frontSame, buildSame⟩ := cutPlus
  have noHyphen : '-' ∉ dotted [v.written.major, v.written.minor, v.written.patch] :=
    v.not_mem_mainChars (by decide) (by decide)
  have cutHyphen := cutAt_append_behind
    (WrittenVersion.not_mem_main formed (c := '-') (by decide) (by decide))
    (WrittenVersion.joined w.prerelease)
  rw [← WrittenVersion.frontChars, ← frontSame, WrittenVersion.frontChars,
    cutAt_append_behind noHyphen, Prod.mk.injEq] at cutHyphen
  constructor
  · refine joined_injective ?_ (fun piece member => ?_) cutHyphen.2
    · simpa [written] using fun i member => (identifiers i member).1
    · exact WrittenVersion.dot_not_mem_of_isBuildForm
        (isBuildForm_of_isPrereleaseForm (formed.prerelease piece member))
  · refine joined_injective ?_ (fun piece member => ?_) buildSame
    · simpa [written] using sound.build
    · exact WrittenVersion.dot_not_mem_of_isBuildForm (formed.build piece member)

theorem Sound.readable {v : Version} (sound : v.Sound) (plain : ¬v.HoldsPlus) : v.Readable := by
  obtain ⟨w, formed, whole⟩ := sound.exists_formed
  obtain ⟨prerelease, build⟩ := sound.written_eq plain formed whole
  obtain ⟨⟨major, minor, patch⟩, numerics⟩ := writable_of_checked sound.passed
  refine ⟨major, minor, patch, fun i member => ?_, fun piece member => ?_⟩
  · have form : isPrereleaseForm i.chars = true := by
      refine formed.prerelease i.chars ?_
      rw [← prerelease]
      exact List.mem_map_of_mem member
    cases i with
    | numeric n => exact numerics n member
    | word text =>
        have buildForm : isBuildForm text.toList = true := isBuildForm_of_isPrereleaseForm form
        refine ⟨buildForm, ?_⟩
        rw [← allUnicodeDigits_eq buildForm]
        exact (sound.words text member).1
  · refine formed.build piece.toList ?_
    rw [← build]
    exact List.mem_map_of_mem member

/-- A version built from values is read again from its written form exactly if no word of
its prerelease holds a plus sign.  If one does, what is read ranks the same but is another
version, unless a number of its prerelease is too long to be read at all.  Of the versions
that are read again, those that rank the same have the same numbers and identifiers. -/
theorem constructed_read_again_iff {v : Version} (constructed : v.Constructed) :
    (parse v.text = .ok v ↔ ¬v.HoldsPlus) ∧
      (v.HoldsPlus →
        (∃ u, parse v.text = .ok u ∧ u.sameRank v = true ∧ u.prerelease ≠ v.prerelease ∧
            u.interchangeable v = false) ∨
          ¬ShortRuns v.chars ∧ ∃ cause, parse v.text = .error (.numeral cause)) ∧
        ∀ w : Version, w.Constructed → ¬v.HoldsPlus → ¬w.HoldsPlus → v.sameRank w = true →
          v.main = w.main ∧ v.prerelease = w.prerelease := by
  have sound := constructed.sound
  refine ⟨⟨fun read => not_holdsPlus_of_readable (readable_of_parse read), fun plain =>
    parse_eq_ok_iff.mpr ⟨sound.readable plain, rfl⟩⟩, fun plus => ?_, ?_⟩
  · cases outcome : parse v.text with
    | ok u =>
        obtain ⟨readable, written⟩ := parse_eq_ok_iff.mp outcome
        have sameChars : u.chars = v.chars := by
          rw [← toList_text, written, toList_text]
        have sameRank : u.sameRank v = true := by
          rw [sameRank, beq_iff_eq, ← compare_eq_of_chars rfl sameChars,
            compare_eq_rank readable readable]
          exact rank_eq_eq_iff.mpr ⟨rfl, rfl⟩
        have differs : u.prerelease ≠ v.prerelease := by
          intro same
          obtain ⟨text, member, inside⟩ := plus
          exact not_holdsPlus_of_readable readable ⟨text, same ▸ member, inside⟩
        exact .inl ⟨u, rfl, sameRank, differs, by simp [interchangeable, differs]⟩
    | error fault =>
        have refused : parseChars v.chars = .error fault := by
          rwa [parse, toList_text] at outcome
        obtain ⟨cause, rfl⟩ := sound.fault_of_parseChars refused
        refine .inr ⟨fun short => ?_, cause, rfl⟩
        obtain ⟨u, readable⟩ := sound.legible short
        rw [parseChars_eq_ok_iff.mpr readable] at refused
        cases refused
  · intro w otherConstructed plain otherPlain same
    have readable := sound.readable plain
    have otherReadable := otherConstructed.sound.readable otherPlain
    rw [sameRank, beq_iff_eq, compare_eq_rank readable otherReadable] at same
    exact rank_eq_eq_iff.mp same

/-- A prerelease with a plus sign in its only word. -/
theorem constructed_read_again_iff_of_plus :
    ∃ v : Version, v.Constructed ∧ v.HoldsPlus ∧ parse v.text ≠ .ok v ∧
      ∃ u, parse v.text = .ok u ∧ u.sameRank v = true ∧ u.interchangeable v = false := by
  have constructed : Constructed ⟨1, 0, 0, [.word "a+b"], []⟩ :=
    ⟨.int 1, .int 0, .int 0, .list [.text "a+b"], .list [], rfl⟩
  have plus : HoldsPlus ⟨1, 0, 0, [.word "a+b"], []⟩ := ⟨"a+b", by simp, by decide⟩
  have short : ShortRuns (chars ⟨1, 0, 0, [.word "a+b"], []⟩) := shortRuns_of_length_le (by decide)
  obtain ⟨again, twin, -⟩ := constructed_read_again_iff constructed
  refine ⟨_, constructed, plus, fun read => again.mp read plus, ?_⟩
  obtain ⟨u, read, sameRank, -, differs⟩ := (twin plus).resolve_right fun long => long.1 short
  exact ⟨u, read, sameRank, differs⟩

/-- The version `1.0.0` with the identifier `a+b` is written like `1.0.0-a+b`, which has
the identifier `a`, ranks the same and counts as another version. -/
theorem not_read_again_of_plus :
    (¬∀ v : Version, v.Constructed → parse v.text = .ok v) ∧
      ¬∀ v w : Version, v.Constructed → w.Constructed → v.sameRank w = true →
        v.main = w.main ∧ v.prerelease = w.prerelease := by
  have constructed : Constructed ⟨1, 0, 0, [.word "a+b"], []⟩ :=
    ⟨.int 1, .int 0, .int 0, .list [.text "a+b"], .list [], rfl⟩
  have read : parse (text ⟨1, 0, 0, [.word "a+b"], []⟩) = .ok ⟨1, 0, 0, [.word "a"], ["b"]⟩ := rfl
  constructor
  · intro again
    simpa [read] using again _ constructed
  · intro sameKey
    have twin : Constructed ⟨1, 0, 0, [.word "a"], ["b"]⟩ :=
      ⟨.int 1, .int 0, .int 0, .list [.text "a"], .list [.text "b"], rfl⟩
    simpa using (sameKey _ _ constructed twin rfl).2

end Version

end VersionRange
