import VersionRange.Proofs.Partial

/-!
# Spellings of partial versions

The grammar of partial versions turned around: what a text looks like that has been cut
into places.  A text that reads as a full version is the written form of that version,
with or without a `v` in front, and any other text gives the numbers that stand in front
of its first missing or wild place.
-/

namespace VersionRange

open Fallible

/-- The text is the written form of the version, with or without a `v` in front. -/
def Version.SpelledOut (v : Version) (text : List Char) : Prop :=
  v.Readable ∧ (text = v.chars ∨ text = 'v' :: v.chars)

namespace PartialVersion

inductive Place.Spelled : Place → List Char → Prop
  | wildcard {c : Char} (wild : isWildcardChar c = true) : Spelled .wildcard [c]
  | number {digits : List Char} (form : isNumericForm digits = true) :
      Spelled (.number digits) digits

theorem exists_front_of_readPlace {text rest : List Char} {place : Place}
    (read : readPlace text = some (place, rest)) :
    ∃ front, place.Spelled front ∧ text = front ++ rest := by
  have formed := formed_of_readPlace read
  unfold readPlace at read
  split at read
  · cases read
  next c more =>
    split at read
    next wild =>
      cases read
      exact ⟨[c], .wildcard wild, rfl⟩
    · split at read
      next zero =>
        cases read
        subst zero
        exact ⟨['0'], .number formed, rfl⟩
      · split at read
        · cases read
          refine ⟨_, .number formed, ?_⟩
          rw [List.cons_append, List.takeWhile_append_dropWhile]
        · cases read

namespace Written

/-- The texts of the places, without a `v` in front. -/
inductive Spelled : Written → List Char → Prop
  | one {major : Place} {a : List Char} (first : major.Spelled a) :
      Spelled ⟨major, none, none, []⟩ a
  | two {major minor : Place} {a b : List Char} (first : major.Spelled a)
      (second : minor.Spelled b) : Spelled ⟨major, some minor, none, []⟩ (a ++ '.' :: b)
  | three {major minor patch : Place} {a b c suffix : List Char} (first : major.Spelled a)
      (second : minor.Spelled b) (third : patch.Spelled c) (form : isSuffix suffix = true) :
      Spelled ⟨major, some minor, some patch, suffix⟩ (a ++ '.' :: (b ++ '.' :: (c ++ suffix)))

theorem spelled_of_read? {text : List Char} {w : Written} (read : read? text = some w) :
    ∃ body, w.Spelled body ∧ (text = body ∨ text = 'v' :: body) := by
  have front : text = (if text.head? = some 'v' then text.drop 1 else text) ∨
      text = 'v' :: (if text.head? = some 'v' then text.drop 1 else text) := by
    cases text with
    | nil => exact .inl rfl
    | cons c rest =>
        by_cases v : c = 'v'
        · exact .inr (by simp [v])
        · exact .inl (by simp [v])
  refine ⟨_, ?_, front⟩
  simp only [read?, Option.bind_eq_bind, Option.bind_eq_some_iff, Prod.exists] at read
  obtain ⟨major, rest, majorRead, read⟩ := read
  obtain ⟨a, first, whole⟩ := exists_front_of_readPlace majorRead
  rw [whole]
  split at read
  · cases read
    rw [List.append_nil]
    exact .one first
  · simp only [Option.bind_eq_some_iff, Prod.exists] at read
    obtain ⟨minor, rest, minorRead, read⟩ := read
    obtain ⟨b, second, rfl⟩ := exists_front_of_readPlace minorRead
    split at read
    · cases read
      rw [List.append_nil]
      exact .two first second
    · simp only [Option.bind_eq_some_iff, Prod.exists, Option.ite_none_right_eq_some,
        Option.some.injEq] at read
      obtain ⟨patch, suffix, patchRead, form, rfl⟩ := read
      obtain ⟨c, third, rfl⟩ := exists_front_of_readPlace patchRead
      exact .three first second third form
    · cases read
  · cases read

end Written

theorem isVersionChar_of_isNumericForm {digits : List Char} (form : isNumericForm digits = true)
    {c : Char} (member : c ∈ digits) : isVersionChar c = true := by
  have digit := (isNumericForm_iff.mp form).2.1 c member
  exact isVersionChar_of_isIdentifierChar (isIdentifierChar_of_isDigit digit)

theorem isVersionChar_of_isSuffix {suffix : List Char} (form : isSuffix suffix = true)
    {c : Char} (member : c ∈ suffix) : isVersionChar c = true := by
  cases suffix with
  | nil => cases member
  | cons d rest =>
      simp only [isSuffix, Bool.and_eq_true, Bool.or_eq_true, decide_eq_true_eq] at form
      rcases List.mem_cons.mp member with rfl | later
      · rcases form.1 with rfl | rfl <;> decide
      · exact List.all_eq_true.mp form.2 c later

theorem Place.Spelled.mem {place : Place} {text : List Char} (spelled : place.Spelled text)
    {c : Char} (member : c ∈ text) : isVersionChar c = true ∨ c = '*' := by
  cases spelled with
  | @wildcard d wild =>
      rw [List.mem_singleton] at member
      subst member
      simp only [isWildcardChar, Bool.or_eq_true, decide_eq_true_eq] at wild
      rcases wild with (rfl | rfl) | rfl
      · exact .inl (by decide)
      · exact .inl (by decide)
      · exact .inr rfl
  | number form => exact .inl (isVersionChar_of_isNumericForm form member)

/-- The characters that partial versions are written with. -/
theorem mem_of_read? {text : List Char} {w : Written} (read : Written.read? text = some w)
    {c : Char} (member : c ∈ text) : isVersionChar c = true ∨ c = '*' := by
  have dot : isVersionChar '.' = true := by decide
  have v : isVersionChar 'v' = true := by decide
  obtain ⟨body, spelled, front⟩ := Written.spelled_of_read? read
  have inside (among : c ∈ body) : isVersionChar c = true ∨ c = '*' := by
    cases spelled with
    | one first => exact first.mem among
    | two first second =>
        rcases List.mem_append.mp among with inFirst | behind
        · exact first.mem inFirst
        · rcases List.mem_cons.mp behind with rfl | inSecond
          · exact .inl dot
          · exact second.mem inSecond
    | three first second third form =>
        simp only [List.mem_append, List.mem_cons] at among
        rcases among with inFirst | rfl | inSecond | rfl | inThird | inSuffix
        · exact first.mem inFirst
        · exact .inl dot
        · exact second.mem inSecond
        · exact .inl dot
        · exact third.mem inThird
        · exact .inl (isVersionChar_of_isSuffix form inSuffix)
  rcases front with rfl | rfl
  · exact inside member
  · rcases List.mem_cons.mp member with rfl | among
    · exact .inl v
    · exact inside among

theorem Place.Spelled.ne_nil {place : Place} {text : List Char}
    (spelled : place.Spelled text) : text ≠ [] := by
  cases spelled with
  | wildcard wild => simp
  | number form => exact (isNumericForm_iff.mp form).1

theorem ne_nil_of_read? {text : List Char} {w : Written} (read : Written.read? text = some w) :
    text ≠ [] := by
  obtain ⟨body, spelled, front⟩ := Written.spelled_of_read? read
  have nonempty : body ≠ [] := by
    cases spelled with
    | one first => exact first.ne_nil
    | two first second => simp
    | three first second third form => simp
  rcases front with rfl | rfl
  · exact nonempty
  · simp

/-- The numbers in front of the first missing one. -/
def numbers : PartialVersion → List Nat
  | any => []
  | major m => [m]
  | minor m n => [m, n]
  | full v => [v.major, v.minor, v.patch]

theorem exists_read?_of_parseChars {text : List Char} {p : PartialVersion}
    (read : parseChars text = .ok p) : ∃ w, Written.read? text = some w := by
  cases form : Written.read? text with
  | none => simp [parseChars, form] at read
  | some w => exact ⟨w, rfl⟩

theorem main_eq_of_chars {v : Version} (readable : v.Readable) {suffix : List Char}
    (form : isSuffix suffix = true) {m n p : Nat}
    (written : v.chars = (Version.release m n p).mainChars ++ suffix) :
    v.major = m ∧ v.minor = n ∧ v.patch = p := by
  have boundary (c : Char) (head : suffix.head? = some c) : (c.isDigit || c = '.') = false := by
    rcases head_of_isSuffix form head with rfl | rfl <;> decide
  have same : [numeralChars v.major, numeralChars v.minor, numeralChars v.patch] =
      [numeralChars m, numeralChars n, numeralChars p] := by
    apply WrittenVersion.numbers_eq_of_chars (Version.formed_written readable) (by simp) (by simp)
      boundary
    rw [Version.chars_written, written]
    rfl
  simpa [numeralChars_injective.eq_iff] using same

/-- The numbers in front are read as they stand, and a full version is read from them and
the suffix. -/
theorem leading_eq_of_parseChars {text : List Char} {w : Written} {p : PartialVersion}
    (form : Written.read? text = some w) (read : parseChars text = .ok p) :
    w.leading = p.numbers.map numeralChars ∧
      ∀ v, p = .full v → v.Readable ∧ v.chars = dotted w.leading ++ w.suffix := by
  have formed := Written.formed_of_read? form
  rw [parseChars_eq form, bind_eq_ok_iff] at read
  obtain ⟨numbers, numbersRead, read⟩ := read
  have forms (digits : List Char) (among : digits ∈ w.leading) : isNumericForm digits = true :=
    Written.isNumericForm_of_mem_leading formed among
  have written : numbers.map numeralChars = w.leading :=
    ((mapM_readNumeral_eq_ok_iff forms).mp (mapError_eq_ok_iff.mp numbersRead)).2
  have few := Written.length_leading_le w
  rw [← written, List.length_map] at few
  match numbers with
  | [] | [_] | [_, _] =>
      obtain ⟨-, rfl⟩ := short_eq_ok_iff.mp read
      exact ⟨written.symm, by simp⟩
  | [m, n, k] =>
      -- The full version is read again from the numbers, so it has just these.
      obtain ⟨v, readable, whole, rfl⟩ := readFull_eq_ok_iff.mp read
      obtain ⟨rfl, rfl, rfl⟩ := main_eq_of_chars readable formed.suffix whole
      refine ⟨written.symm, fun other same => ?_⟩
      cases same
      exact ⟨readable, by rw [whole, ← written]; rfl⟩
  | _ :: _ :: _ :: _ :: _ =>
      simp only [List.length_cons] at few
      omega

theorem Written.Spelled.eq_dotted {w : Written} {body : List Char} (spelled : w.Spelled body)
    (three : w.leading.length = 3) : body = dotted w.leading ++ w.suffix := by
  cases spelled with
  | one first => cases first <;> simp [leading] at three
  | two first second => cases first <;> cases second <;> simp [leading] at three
  | three first second third form =>
      cases first <;> cases second <;> cases third <;> simp [leading] at three
      simp [leading, dotted, List.intercalate]

theorem read?_v_cons {body : List Char} (noV : body.head? ≠ some 'v') :
    Written.read? ('v' :: body) = Written.read? body := by
  simp [Written.read?, noV]

/-- The texts that read as a full version. -/
theorem parseChars_eq_ok_full_iff {text : List Char} {v : Version} :
    parseChars text = .ok (.full v) ↔ v.SpelledOut text := by
  constructor
  · intro read
    obtain ⟨w, form⟩ := exists_read?_of_parseChars read
    obtain ⟨numbers, whole⟩ := leading_eq_of_parseChars form read
    obtain ⟨readable, written⟩ := whole v rfl
    obtain ⟨body, spelled, front⟩ := Written.spelled_of_read? form
    have same : body = v.chars := by
      rw [written]
      exact spelled.eq_dotted (by simp [numbers, PartialVersion.numbers])
    exact ⟨readable, by rwa [same] at front⟩
  · rintro ⟨readable, rfl | rfl⟩
    · exact parseChars_chars readable
    · exact parseChars_of_read?_eq readable (read?_v_cons (head?_chars_ne_v v))

end PartialVersion

end VersionRange
