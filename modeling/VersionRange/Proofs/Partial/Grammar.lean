import VersionRange.Proofs.Partial.Spelling
import VersionRange.Proofs.Version.Acceptance

/-!
# The grammar of partial versions

Partial versions as productions, each text with what it stands for.  Whatever follows the
first missing number is without effect, and only a full version may go on with a
prerelease or a build.  The grammar knows no limit on numbers: a text of it is read unless
a number that counts is too long, and nothing but texts of it is read.
-/

namespace VersionRange

open Fallible VersionGrammar

namespace PartialVersion

namespace Grammar

inductive PlaceText : Option Nat → List Char → Prop
  | wildcard {c : Char} (wild : c = 'x' ∨ c = 'X' ∨ c = '*') : PlaceText none [c]
  | number (n : Nat) : PlaceText (some n) (numeralChars n)

/-- What is left if the patch number is missing. -/
def standing : Option Nat → Option Nat → PartialVersion
  | none, _ => .any
  | some m, none => .major m
  | some m, some n => .minor m n

inductive Body : PartialVersion → List Char → Prop
  | one {m : Option Nat} {a : List Char} (first : PlaceText m a) : Body (standing m none) a
  | two {m n : Option Nat} {a b : List Char} (first : PlaceText m a) (second : PlaceText n b) :
      Body (standing m n) (a ++ '.' :: b)
  | three {m n p : Option Nat} {a b c : List Char} (first : PlaceText m a)
      (second : PlaceText n b) (third : PlaceText p c)
      (missing : m = none ∨ n = none ∨ p = none) :
      Body (standing m n) (a ++ '.' :: (b ++ '.' :: c))
  | full {v : Version} {w : WrittenVersion} {text : List Char} (tree : VersionText w text)
      (said : v.Says w) : Body (.full v) text

end Grammar

/-- The text stands for the partial version. -/
inductive StandsFor : PartialVersion → List Char → Prop
  | plain {p : PartialVersion} {text : List Char} (body : Grammar.Body p text) : StandsFor p text
  | marked {p : PartialVersion} {text : List Char} (body : Grammar.Body p text) :
      StandsFor p ('v' :: text)

theorem readPlace_of_spelled {place : Place} {front rest : List Char}
    (spelled : place.Spelled front) (boundary : ∀ c, rest.head? = some c → c.isDigit = false) :
    readPlace (front ++ rest) = some (place, rest) := by
  cases spelled with
  | wildcard wild => simp [readPlace, wild]
  | number form => exact readPlace_append form boundary

theorem Place.Spelled.head?_ne_v {place : Place} {front : List Char}
    (spelled : place.Spelled front) (rest : List Char) : (front ++ rest).head? ≠ some 'v' := by
  rw [List.head?_append_of_ne_nil _ spelled.ne_nil]
  intro head
  have member := List.mem_of_mem_head? head
  cases spelled with
  | wildcard wild =>
      rw [← List.mem_singleton.mp member] at wild
      revert wild
      decide
  | number form => exact absurd ((isNumericForm_iff.mp form).2.1 'v' member) (by decide)

theorem Written.read?_of_spelled {w : Written} {body : List Char} (spelled : w.Spelled body) :
    read? body = some w ∧ body.head? ≠ some 'v' := by
  have beforeDot (rest : List Char) (c : Char) (head : ('.' :: rest).head? = some c) :
      c.isDigit = false := by
    cases head
    decide
  have atEnd (c : Char) (head : ([] : List Char).head? = some c) : c.isDigit = false := by
    cases head
  cases spelled with
  | one first =>
      have place := readPlace_of_spelled first atEnd
      have noV := first.head?_ne_v []
      rw [List.append_nil] at place noV
      exact ⟨by simp [read?, noV, place], noV⟩
  | two first second =>
      have noV := first.head?_ne_v
      have place := readPlace_of_spelled second atEnd
      rw [List.append_nil] at place
      refine ⟨?_, noV _⟩
      rw [read?, if_neg (noV _), readPlace_of_spelled first (beforeDot _)]
      simp [place]
  | @three major minor patch a b c suffix first second third form =>
      have noV := first.head?_ne_v
      have beforeSuffix (d : Char) (head : suffix.head? = some d) : d.isDigit = false := by
        rcases head_of_isSuffix form head with rfl | rfl <;> decide
      refine ⟨?_, noV _⟩
      rw [read?, if_neg (noV _), readPlace_of_spelled first (beforeDot _)]
      simp only [Option.bind_eq_bind, Option.bind_some]
      rw [readPlace_of_spelled second (beforeDot _)]
      simp only [Option.bind_some]
      rw [readPlace_of_spelled third beforeSuffix]
      simp [form]

/-- A place as it is written. -/
def placeOf : Option Nat → Place
  | none => .wildcard
  | some n => .number (numeralChars n)

theorem Grammar.PlaceText.spelled {m : Option Nat} {text : List Char} (place : PlaceText m text) :
    (placeOf m).Spelled text := by
  cases place with
  | wildcard wild => exact .wildcard (by simpa [isWildcardChar, or_assoc] using wild)
  | number n => exact .number (isNumericForm_numeralChars n)

theorem Place.Spelled.exists_placeText {place : Place} {text : List Char}
    (spelled : place.Spelled text) : ∃ m, place = placeOf m ∧ Grammar.PlaceText m text := by
  cases spelled with
  | wildcard wild =>
      refine ⟨none, rfl, .wildcard ?_⟩
      simpa [isWildcardChar, or_assoc] using wild
  | number form =>
      have written := numeralChars_digitsValue form
      refine ⟨some (digitsValue text), by rw [placeOf, written], ?_⟩
      simpa only [written] using Grammar.PlaceText.number (digitsValue text)

end PartialVersion

namespace Version

theorem written_eq_of_says {v : Version} {w : WrittenVersion} (said : v.Says w) :
    v.written = w := by
  have identifiers : v.prerelease.map Identifier.chars = w.prerelease := by
    rw [← List.forall₂_eq_eq_eq, List.forall₂_map_left_iff]
    exact said.prerelease.imp fun _ _ both => both.1
  cases w
  simp [written, said.major, said.minor, said.patch, said.build, identifiers]

theorem Says.unique {v other : Version} {w : WrittenVersion} (said : v.Says w)
    (otherSaid : other.Says w) : v = other := by
  have identifiers : v.prerelease = other.prerelease := by
    refine List.left_unique_forall₂' ?_ said.prerelease otherSaid.prerelease
    rintro i j _ ⟨rfl, numeric⟩ ⟨written, otherNumeric⟩
    have kind := numeric.trans otherNumeric.symm
    cases i with
    | numeric n =>
        obtain ⟨k, rfl⟩ := kind.mp ⟨n, rfl⟩
        exact congrArg Identifier.numeric (numeralChars_injective written.symm)
    | word text =>
        cases j with
        | numeric k => exact nomatch kind.mpr ⟨k, rfl⟩
        | word other => exact congrArg Identifier.word (String.toList_inj.mp written.symm)
  have build : v.build = other.build :=
    List.map_injective_iff.mpr (fun _ _ => String.toList_inj.mp)
      (said.build.trans otherSaid.build.symm)
  obtain ⟨major, minor, patch, prerelease, builds⟩ := v
  obtain rfl := numeralChars_injective (said.major.trans otherSaid.major.symm)
  obtain rfl := numeralChars_injective (said.minor.trans otherSaid.minor.symm)
  obtain rfl := numeralChars_injective (said.patch.trans otherSaid.patch.symm)
  cases identifiers
  cases build
  rfl

/-- A version that a parse tree stands for keeps to the limit if the numbers of the tree do. -/
theorem readable_of_says {v : Version} {w : WrittenVersion} (formed : w.Formed) (said : v.Says w)
    (main : ∀ digits ∈ [w.major, w.minor, w.patch], digits.length ≤ digitLimit)
    (identifiers : ∀ piece ∈ w.prerelease, piece.all Char.isDigit = true →
      piece.length ≤ digitLimit) : v.Readable := by
  obtain rfl := written_eq_of_says said
  simp only [List.forall_mem_cons, List.not_mem_nil, false_imp_iff, implies_true,
    and_true] at main
  have classified := said.prerelease
  rw [written, List.forall₂_map_right_iff, List.forall₂_same] at classified
  refine ⟨decide_eq_true main.1, decide_eq_true main.2.1, decide_eq_true main.2.2,
    fun i member => ?_, fun piece member => formed.build _ (List.mem_map_of_mem member)⟩
  have among : i.chars ∈ v.written.prerelease := List.mem_map_of_mem member
  cases i with
  | numeric n =>
      exact decide_eq_true (identifiers _ among (List.all_eq_true.mpr fun _ =>
        isDigit_of_mem_numeralChars))
  | word text =>
      have form := formed.prerelease _ among
      have notAll : ¬∀ c ∈ text.toList, c.isDigit = true := by
        intro digits
        obtain ⟨n, numeric⟩ := (classified _ member).2.mpr digits
        cases numeric
      exact ⟨isBuildForm_of_isPrereleaseForm form, by simpa using notAll⟩

end Version

namespace VersionGrammar

theorem Suffix.head {mark : Char} {identifier : List Char → Prop} {pieces : List (List Char)}
    {text : List Char} (suffix : Suffix mark identifier pieces text) :
    text = [] ∨ ∃ rest, text = mark :: rest := by
  cases suffix with
  | absent => exact .inl rfl
  | present identifiers => exact .inr ⟨_, rfl⟩

end VersionGrammar

namespace PartialVersion

theorem spelled_of_versionText {w : WrittenVersion} {text : List Char} (tree : VersionText w text) :
    ∃ suffix, Written.Spelled
        ⟨.number w.major, some (.number w.minor), some (.number w.patch), suffix⟩ text ∧
      text = dotted [w.major, w.minor, w.patch] ++ suffix := by
  have allowed {c : Char} (member : c ∈ text) : isVersionChar c = true := by
    obtain ⟨formed, rfl⟩ := versionText_iff.mp tree
    exact WrittenVersion.isVersionChar_of_mem_chars formed member
  cases tree with
  | @intro major minor patch prereleaseText buildText prerelease build majorForm minorForm
      patchForm prereleaseForm buildForm =>
      have form : isSuffix (prereleaseText ++ buildText) = true := by
        have others : ∀ c ∈ prereleaseText ++ buildText, isVersionChar c = true := by
          intro c member
          apply allowed
          simp only [List.mem_append, List.mem_cons] at member ⊢
          tauto
        rcases prereleaseForm.head with rfl | ⟨rest, rfl⟩
        · rcases buildForm.head with rfl | ⟨rest, rfl⟩
          · rfl
          · exact Bool.and_eq_true_iff.mpr
              ⟨rfl, List.all_eq_true.mpr (List.forall_mem_cons.mp others).2⟩
        · exact Bool.and_eq_true_iff.mpr
            ⟨rfl, List.all_eq_true.mpr (List.forall_mem_cons.mp others).2⟩
      refine ⟨prereleaseText ++ buildText, ?_, by simp [dotted, List.intercalate]⟩
      exact .three (.number (numericIdentifier_iff.mp majorForm))
        (.number (numericIdentifier_iff.mp minorForm))
        (.number (numericIdentifier_iff.mp patchForm))
        form

theorem parseChars_of_leading {text : List Char} {w : Written} {numbers : List Nat}
    (form : Written.read? text = some w) (leading : w.leading = numbers.map numeralChars)
    (short : ¬Overlong text) : parseChars text = ofNumbers text w.suffix numbers := by
  have forms (digits : List Char) (among : digits ∈ w.leading) : isNumericForm digits = true :=
    Written.isNumericForm_of_mem_leading (Written.formed_of_read? form) among
  have writable : ∀ n ∈ numbers, isWritableNumeral n = true := by
    intro n member
    by_contra long
    refine short ⟨w, form, .inl ⟨numeralChars n, ?_, ?_⟩⟩
    · rw [leading]
      exact List.mem_map_of_mem member
    · simpa [isWritableNumeral] using long
  have read := (mapM_readNumeral_eq_ok_iff forms).mpr ⟨writable, leading.symm⟩
  rw [parseChars_eq form, read]
  rfl

namespace Grammar

theorem leading_one (m : Option Nat) : Written.leading ⟨placeOf m, none, none, []⟩ =
    (standing m none).numbers.map numeralChars := by
  cases m <;> rfl

theorem leading_two (m n : Option Nat) : Written.leading ⟨placeOf m, some (placeOf n), none, []⟩ =
    (standing m n).numbers.map numeralChars := by
  cases m <;> cases n <;> rfl

theorem leading_three {m n p : Option Nat} (missing : m = none ∨ n = none ∨ p = none)
    (suffix : List Char) :
    Written.leading ⟨placeOf m, some (placeOf n), some (placeOf p), suffix⟩ =
      (standing m n).numbers.map numeralChars := by
  cases m <;> cases n <;> cases p <;> simp at missing <;> rfl

theorem ofNumbers_standing (text suffix : List Char) (m n : Option Nat) :
    ofNumbers text suffix (standing m n).numbers = short text suffix (standing m n) := by
  cases m <;> cases n <;> rfl

/-- How a text of the grammar falls into places. -/
theorem Body.exists_spelled {p : PartialVersion} {body : List Char} (tree : Body p body) :
    ∃ w : Written, w.Spelled body ∧ w.leading = p.numbers.map numeralChars ∧
      (∀ v, p = .full v → ∃ version, VersionText version body ∧ v.Says version ∧
        body = dotted w.leading ++ w.suffix) ∧ ((∀ v, p ≠ .full v) → w.suffix = []) := by
  have short {m n : Option Nat} (v : Version) : standing m n ≠ .full v := by
    cases m <;> cases n <;> simp [standing]
  cases tree with
  | @one m a first =>
      exact ⟨_, .one first.spelled, leading_one m, fun v full => absurd full (short v),
        fun _ => rfl⟩
  | @two m n a b first second =>
      exact ⟨_, .two first.spelled second.spelled, leading_two m n,
        fun v full => absurd full (short v), fun _ => rfl⟩
  | @three m n p a b c first second third missing =>
      have whole : Written.Spelled ⟨placeOf m, some (placeOf n), some (placeOf p), []⟩ _ :=
        .three first.spelled second.spelled third.spelled rfl
      rw [List.append_nil] at whole
      exact ⟨_, whole, leading_three missing [], fun v full => absurd full (short v),
        fun _ => rfl⟩
  | @full v w text tree said =>
      obtain ⟨suffix, spelled, whole⟩ := spelled_of_versionText tree
      refine ⟨_, spelled, ?_, ?_, fun other => absurd rfl (other v)⟩
      · simp [Written.leading, numbers, said.major, said.minor, said.patch]
      · rintro _ ⟨⟩
        exact ⟨w, tree, said, by simpa [Written.leading] using whole⟩

end Grammar

theorem StandsFor.exists_body {p : PartialVersion} {text : List Char} (form : StandsFor p text) :
    ∃ body, Grammar.Body p body ∧ (text = body ∨ text = 'v' :: body) := by
  cases form with
  | plain body => exact ⟨_, body, .inl rfl⟩
  | marked body => exact ⟨_, body, .inr rfl⟩

theorem Written.read?_of_spelled_or_marked {w : Written} {text body : List Char}
    (spelled : w.Spelled body) (front : text = body ∨ text = 'v' :: body) :
    read? text = some w := by
  obtain ⟨read, noV⟩ := read?_of_spelled spelled
  rcases front with rfl | rfl
  · exact read
  · rwa [read?_v_cons noV]

theorem StandsFor.exists_read? {p : PartialVersion} {text : List Char} (form : StandsFor p text) :
    ∃ w, Written.read? text = some w := by
  obtain ⟨body, tree, front⟩ := form.exists_body
  obtain ⟨w, spelled, -⟩ := tree.exists_spelled
  exact ⟨w, Written.read?_of_spelled_or_marked spelled front⟩

/-- A text stands for one partial version only. -/
theorem StandsFor.unique {p q : PartialVersion} {text : List Char} (form : StandsFor p text)
    (other : StandsFor q text) : p = q := by
  obtain ⟨body, tree, front⟩ := form.exists_body
  obtain ⟨otherBody, otherTree, otherFront⟩ := other.exists_body
  obtain ⟨w, spelled, leading, whole, -⟩ := tree.exists_spelled
  obtain ⟨otherW, otherSpelled, otherLeading, otherWhole, -⟩ := otherTree.exists_spelled
  have numbers : p.numbers = q.numbers := by
    have read := Written.read?_of_spelled_or_marked spelled front
    have otherRead := Written.read?_of_spelled_or_marked otherSpelled otherFront
    obtain rfl := Option.some.inj (read.symm.trans otherRead)
    exact List.map_injective_iff.mpr numeralChars_injective (leading.symm.trans otherLeading)
  cases p with
  | full v =>
      cases q with
      | full u =>
          -- A body does not begin with a `v`, so that there is one body and one tree of it.
          have sameBody : body = otherBody := by
            have noV := (Written.read?_of_spelled spelled).2
            have otherNoV := (Written.read?_of_spelled otherSpelled).2
            rcases front with rfl | rfl <;> rcases otherFront with same | same
            · exact same
            · exact absurd (by rw [same]; rfl) noV
            · exact absurd (by rw [← same]; rfl) otherNoV
            · exact (List.cons.inj same).2
          subst sameBody
          obtain ⟨version, versionTree, said, -⟩ := whole v rfl
          obtain ⟨otherVersion, otherVersionTree, otherSaid, -⟩ := otherWhole u rfl
          rw [versionText_iff_read?] at versionTree otherVersionTree
          obtain rfl := Option.some.inj (versionTree.symm.trans otherVersionTree)
          exact congrArg full (said.unique otherSaid)
      | any | major | minor => cases numbers
  | any | major | minor =>
      cases q <;> cases numbers
      rfl

/-- A text of the grammar is read as what it stands for, unless a number is too long. -/
theorem parseChars_of_standsFor {p : PartialVersion} {text : List Char} (form : StandsFor p text)
    (short : ¬Overlong text) : parseChars text = .ok p := by
  obtain ⟨body, tree, front⟩ := form.exists_body
  obtain ⟨w, spelled, leading, whole, noSuffix⟩ := tree.exists_spelled
  have read := Written.read?_of_spelled_or_marked spelled front
  cases p with
  | full v =>
      obtain ⟨version, versionTree, said, same⟩ := whole v rfl
      obtain ⟨formed, written⟩ := versionText_iff.mp versionTree
      have numbers : w.leading = [version.major, version.minor, version.patch] := by
        rw [leading, ← said.major, ← said.minor, ← said.patch]
        rfl
      have readable : v.Readable := by
        apply Version.readable_of_says formed said
        · intro digits among
          by_contra long
          exact short ⟨w, read, .inl ⟨digits, numbers ▸ among, Nat.lt_of_not_le long⟩⟩
        · intro piece among digits
          by_contra long
          refine short ⟨w, read, .inr ⟨by rw [numbers]; rfl, version, ?_, piece, among, digits,
            Nat.lt_of_not_le long⟩⟩
          rw [← same]
          exact versionText_iff_read?.mp versionTree
      have chars : v.chars = body := by
        rw [← Version.chars_written, Version.written_eq_of_says said, written]
      exact parseChars_eq_ok_full_iff.mpr ⟨readable, by rwa [chars]⟩
  | any | major m | minor m n =>
      rw [parseChars_of_leading read leading short, noSuffix (by simp)]
      rfl

/-- What is read is a text of the grammar, and stands for what it is read as. -/
theorem standsFor_of_parseChars {p : PartialVersion} {text : List Char}
    (read : parseChars text = .ok p) : StandsFor p text := by
  obtain ⟨w, form⟩ := exists_read?_of_parseChars read
  obtain ⟨body, spelled, front⟩ := Written.spelled_of_read? form
  suffices tree : Grammar.Body p body by
    rcases front with rfl | rfl
    · exact .plain tree
    · exact .marked tree
  have forms (digits : List Char) (among : digits ∈ w.leading) : isNumericForm digits = true :=
    Written.isNumericForm_of_mem_leading (Written.formed_of_read? form) among
  rw [parseChars_eq form, bind_eq_ok_iff] at read
  obtain ⟨numbers, numbersRead, read⟩ := read
  have leading := ((mapM_readNumeral_eq_ok_iff forms).mp (mapError_eq_ok_iff.mp numbersRead)).2
  have same {runs : List Nat} (whole : w.leading = runs.map numeralChars) : numbers = runs :=
    List.map_injective_iff.mpr numeralChars_injective (leading.trans whole)
  cases spelled with
  | one first =>
      obtain ⟨m, rfl, firstText⟩ := first.exists_placeText
      rw [same (Grammar.leading_one m), Grammar.ofNumbers_standing] at read
      obtain ⟨-, rfl⟩ := short_eq_ok_iff.mp read
      exact .one firstText
  | two first second =>
      obtain ⟨m, rfl, firstText⟩ := first.exists_placeText
      obtain ⟨n, rfl, secondText⟩ := second.exists_placeText
      rw [same (Grammar.leading_two m n), Grammar.ofNumbers_standing] at read
      obtain ⟨-, rfl⟩ := short_eq_ok_iff.mp read
      exact .two firstText secondText
  | @three _ _ _ a b c suffix first second third suffixForm =>
      obtain ⟨m, rfl, firstText⟩ := first.exists_placeText
      obtain ⟨n, rfl, secondText⟩ := second.exists_placeText
      obtain ⟨k, rfl, thirdText⟩ := third.exists_placeText
      by_cases missing : m = none ∨ n = none ∨ k = none
      · rw [same (Grammar.leading_three missing suffix), Grammar.ofNumbers_standing] at read
        obtain ⟨noSuffix, rfl⟩ := short_eq_ok_iff.mp read
        obtain rfl : suffix = [] := noSuffix
        rw [List.append_nil]
        exact .three firstText secondText thirdText missing
      · simp only [not_or, ← ne_eq, Option.ne_none_iff_exists'] at missing
        obtain ⟨⟨m, rfl⟩, ⟨n, rfl⟩, ⟨k, rfl⟩⟩ := missing
        obtain rfl : numbers = [m, n, k] := same rfl
        obtain ⟨v, readable, whole, rfl⟩ := readFull_eq_ok_iff.mp read
        have tree : VersionText v.written v.chars :=
          versionText_iff.mpr ⟨Version.formed_written readable, Version.chars_written v⟩
        cases firstText
        cases secondText
        cases thirdText
        have written : v.chars = numeralChars m ++
            '.' :: (numeralChars n ++ '.' :: (numeralChars k ++ suffix)) := by
          rw [whole]
          simp [Version.mainChars, dotted, List.intercalate]
        rw [← written]
        exact .full tree (Version.says_written readable)

end PartialVersion

end VersionRange
