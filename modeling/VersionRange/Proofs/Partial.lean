import VersionRange.Proofs.Version.Readable
import VersionRange.Partial

/-!
# Reading partial versions

Only the numbers in front of the first missing or wild place of a partial version
count.  They are read from left to right, and the suffix is looked at after them.
So a number that is too long to be read is noticed before anything else is found
wrong with the text.
-/

namespace VersionRange

open Fallible

namespace PartialVersion

/-- The numbers keep to the limit on numerals, and a full version is readable. -/
def Readable : PartialVersion → Prop
  | any => True
  | major m => isWritableNumeral m = true
  | minor m n => isWritableNumeral m = true ∧ isWritableNumeral n = true
  | full v => v.Readable

theorem isWildcardChar_of_isDigit {c : Char} (digit : c.isDigit = true) :
    isWildcardChar c = false := by
  by_contra wild
  simp only [isWildcardChar, Bool.not_eq_false, Bool.or_eq_true, decide_eq_true_eq] at wild
  rcases wild with (rfl | rfl) | rfl <;> revert digit <;> decide

theorem readPlace_append {digits rest : List Char} (form : isNumericForm digits = true)
    (boundary : ∀ c, rest.head? = some c → c.isDigit = false) :
    readPlace (digits ++ rest) = some (.number digits, rest) := by
  obtain ⟨nonempty, allDigits, noZero⟩ := isNumericForm_iff.mp form
  cases digits with
  | nil => exact absurd rfl nonempty
  | cons c more =>
      obtain ⟨digit, others⟩ := List.forall_mem_cons.mp allDigits
      rw [List.cons_append, readPlace, if_neg (by simp [isWildcardChar_of_isDigit digit])]
      by_cases zero : c = '0'
      · subst zero
        have single := (List.cons.inj (noZero rfl)).2
        rw [if_pos rfl, single, List.nil_append]
      · rw [if_neg zero, if_pos digit, takeWhile_front others boundary,
          dropWhile_front others boundary]

def Place.Formed : Place → Prop
  | .wildcard => True
  | .number digits => isNumericForm digits = true

theorem formed_of_readPlace {text rest : List Char} {place : Place}
    (read : readPlace text = some (place, rest)) : place.Formed := by
  unfold readPlace at read
  split at read
  · cases read
  next c more =>
    split at read
    · cases read
      trivial
    · split at read
      · cases read
        rfl
      · split at read
        next nonzero digit =>
          cases read
          refine isNumericForm_iff.mpr
            ⟨by simp, ?_, fun head => absurd (Option.some.inj head) nonzero⟩
          exact List.forall_mem_cons.mpr ⟨digit, List.all_eq_true.mp List.all_takeWhile⟩
        · cases read

namespace Written

structure Formed (w : Written) : Prop where
  major : w.major.Formed
  minor : ∀ place ∈ w.minor, place.Formed
  patch : ∀ place ∈ w.patch, place.Formed
  suffix : isSuffix w.suffix = true

theorem formed_of_read? {text : List Char} {w : Written} (read : read? text = some w) :
    w.Formed := by
  simp only [read?, Option.bind_eq_bind, Option.bind_eq_some_iff, Prod.exists] at read
  obtain ⟨major, rest, majorRead, read⟩ := read
  have majorFormed := formed_of_readPlace majorRead
  split at read
  · cases read
    exact ⟨majorFormed, by simp, by simp, rfl⟩
  · simp only [Option.bind_eq_some_iff, Prod.exists] at read
    obtain ⟨minor, rest, minorRead, read⟩ := read
    have minorFormed := formed_of_readPlace minorRead
    split at read
    · cases read
      exact ⟨majorFormed, by simpa using minorFormed, by simp, rfl⟩
    · simp only [Option.bind_eq_some_iff, Prod.exists, Option.ite_none_right_eq_some,
        Option.some.injEq] at read
      obtain ⟨patch, suffix, patchRead, isSuffix, rfl⟩ := read
      have patchFormed := formed_of_readPlace patchRead
      exact ⟨majorFormed, by simpa using minorFormed, by simpa using patchFormed, isSuffix⟩
    · cases read
  · cases read

/-- The runs of digits in front of the first missing or wild place. -/
def leading (w : Written) : List (List Char) :=
  match w.major, w.minor, w.patch with
  | .number a, some (.number b), some (.number c) => [a, b, c]
  | .number a, some (.number b), _ => [a, b]
  | .number a, _, _ => [a]
  | .wildcard, _, _ => []

theorem isNumericForm_of_mem_leading {w : Written} (formed : w.Formed) {digits : List Char}
    (member : digits ∈ w.leading) : isNumericForm digits = true := by
  obtain ⟨majorFormed, minorFormed, patchFormed, -⟩ := formed
  unfold leading at member
  split at member <;> simp_all [Place.Formed]
  · rcases member with rfl | rfl | rfl <;> assumption
  · rcases member with rfl | rfl <;> assumption

theorem length_leading_le (w : Written) : w.leading.length ≤ 3 := by
  unfold leading
  split <;> simp

end Written

theorem head_of_isSuffix {suffix : List Char} (form : isSuffix suffix = true) {c : Char}
    (head : suffix.head? = some c) : c = '-' ∨ c = '+' := by
  cases suffix with
  | nil => cases head
  | cons d rest =>
      cases head
      simp only [isSuffix, Bool.and_eq_true, Bool.or_eq_true, decide_eq_true_eq] at form
      exact form.1

/-- What the numbers in front of the first missing or wild place come to. -/
def ofNumbers (text suffix : List Char) : List Nat → Except Fault PartialVersion
  | [] => short text suffix .any
  | [m] => short text suffix (.major m)
  | [m, n] => short text suffix (.minor m n)
  | m :: n :: p :: _ => readFull text m n p suffix

theorem number?_bind {α : Type} (digits : List Char) (next : Option Nat → Except Fault α) :
    Place.number? (some (.number digits)) >>= next =
      liftNumeral (readNumeral digits) >>= fun n => next (some n) := by
  cases read : readNumeral digits <;>
    simp [Place.number?, read, liftNumeral, Except.mapError, Except.map]

theorem mapM_readNumeral_bind {α : Type} (digits : List Char) (others : List (List Char))
    (next : List Nat → Except Fault α) :
    liftNumeral ((digits :: others).mapM readNumeral) >>= next =
      liftNumeral (readNumeral digits) >>= fun n =>
        liftNumeral (others.mapM readNumeral) >>= fun numbers => next (n :: numbers) := by
  cases first : readNumeral digits with
  | error cause => simp [List.mapM_cons, first, liftNumeral, Except.mapError]
  | ok n =>
      cases later : others.mapM readNumeral <;>
        simp [List.mapM_cons, first, later, liftNumeral, Except.mapError]

/-- Only the numbers in front count, and they are read before the suffix is looked at. -/
theorem parseChars_eq {text : List Char} {w : Written} (read : Written.read? text = some w) :
    parseChars text = liftNumeral (w.leading.mapM readNumeral) >>= ofNumbers text w.suffix := by
  obtain ⟨major, minor, patch, suffix⟩ := w
  simp only [parseChars, read]
  rcases major with _ | a
  · rfl
  rw [number?_bind]
  rcases minor with _ | _ | b
  · change _ = liftNumeral ([a].mapM readNumeral) >>= _
    rw [mapM_readNumeral_bind]
    rfl
  · change _ = liftNumeral ([a].mapM readNumeral) >>= _
    rw [mapM_readNumeral_bind]
    rfl
  simp only [number?_bind]
  rcases patch with _ | _ | c
  · change _ = liftNumeral ([a, b].mapM readNumeral) >>= _
    simp only [mapM_readNumeral_bind]
    rfl
  · change _ = liftNumeral ([a, b].mapM readNumeral) >>= _
    simp only [mapM_readNumeral_bind]
    rfl
  · change _ = liftNumeral ([a, b, c].mapM readNumeral) >>= _
    simp only [number?_bind, mapM_readNumeral_bind]
    rfl

theorem short_eq_ok_iff {text suffix : List Char} {stopped found : PartialVersion} :
    short text suffix stopped = .ok found ↔ suffix = [] ∧ stopped = found := by
  cases suffix <;> simp [short]

theorem fault_of_short {text suffix : List Char} {stopped : PartialVersion} {fault : Fault}
    (refused : short text suffix stopped = .error fault) : ∃ cause, fault = .range cause := by
  unfold short at refused
  split at refused
  · cases refused
  · cases refused
    exact ⟨_, rfl⟩

theorem readFull_eq_ok_iff {text suffix : List Char} {m n p : Nat} {found : PartialVersion} :
    readFull text m n p suffix = .ok found ↔
      ∃ v : Version, v.Readable ∧ v.chars = (Version.release m n p).mainChars ++ suffix ∧
        found = .full v := by
  have read {v : Version} : Version.parseChars ((Version.release m n p).mainChars ++ suffix) =
      .ok v ↔ v.Readable ∧ v.chars = (Version.release m n p).mainChars ++ suffix :=
    Version.parseChars_eq_ok_iff
  unfold readFull
  constructor
  · intro outcome
    split at outcome
    next v whole =>
      cases outcome
      exact ⟨v, (read.mp whole).1, (read.mp whole).2, rfl⟩
    all_goals cases outcome
  · rintro ⟨v, readable, written, rfl⟩
    rw [read.mpr ⟨readable, written⟩]

theorem fault_of_readFull {text suffix : List Char} {m n p : Nat} {fault : Fault}
    (refused : readFull text m n p suffix = .error fault) :
    (∃ cause, fault = .range cause) ∨
      ∃ cause, fault = .numeral cause ∧
        Version.parseChars ((Version.release m n p).mainChars ++ suffix) = .error fault := by
  unfold readFull at refused
  split at refused
  · cases refused
  · cases refused
    exact .inl ⟨_, rfl⟩
  next other notVersion whole =>
    cases refused
    rcases Version.fault_of_parseChars whole with ⟨cause, rfl⟩ | ⟨cause, rfl⟩
    · exact absurd rfl (notVersion cause)
    · exact .inr ⟨cause, rfl, whole⟩

/-- A partial version is refused with a fault of ranges, or for a number that is too
long. -/
theorem fault_of_parseChars {text : List Char} {fault : Fault}
    (refused : parseChars text = .error fault) :
    (∃ cause, fault = .range cause) ∨ ∃ cause, fault = .numeral cause := by
  cases read : Written.read? text with
  | none =>
      simp only [parseChars, read, Except.error.injEq] at refused
      exact .inl ⟨_, refused.symm⟩
  | some w =>
      rw [parseChars_eq read, bind_eq_error_iff] at refused
      rcases refused with numbers | ⟨numbers, -, refused⟩
      · obtain ⟨cause, -, rfl⟩ := mapError_eq_error_iff.mp numbers
        exact .inr ⟨cause, rfl⟩
      · unfold ofNumbers at refused
        split at refused
        · exact .inl (fault_of_short refused)
        · exact .inl (fault_of_short refused)
        · exact .inl (fault_of_short refused)
        · rcases fault_of_readFull refused with range | ⟨cause, rfl, -⟩
          · exact .inl range
          · exact .inr ⟨cause, rfl⟩

theorem readable_of_parseChars {text : List Char} {found : PartialVersion}
    (read : parseChars text = .ok found) : found.Readable := by
  cases writtenText : Written.read? text with
  | none => simp [parseChars, writtenText] at read
  | some w =>
      have forms : ∀ digits ∈ w.leading, isNumericForm digits = true := fun _ =>
        Written.isNumericForm_of_mem_leading (Written.formed_of_read? writtenText)
      rw [parseChars_eq writtenText, bind_eq_ok_iff] at read
      obtain ⟨numbers, numbersRead, read⟩ := read
      have writable := ((mapM_readNumeral_eq_ok_iff forms).mp (mapError_eq_ok_iff.mp numbersRead)).1
      unfold ofNumbers at read
      split at read
      · obtain ⟨-, rfl⟩ := short_eq_ok_iff.mp read
        exact trivial
      · obtain ⟨-, rfl⟩ := short_eq_ok_iff.mp read
        exact writable _ (by simp)
      · obtain ⟨-, rfl⟩ := short_eq_ok_iff.mp read
        exact ⟨writable _ (by simp), writable _ (by simp)⟩
      · obtain ⟨v, readable, -, rfl⟩ := readFull_eq_ok_iff.mp read
        exact readable

/-- A number that counts has more digits than are read: one of the numbers in front,
or a numeric prerelease identifier if the text is a full version otherwise. -/
def Overlong (text : List Char) : Prop :=
  ∃ w, Written.read? text = some w ∧
    ((∃ digits ∈ w.leading, digitLimit < digits.length) ∨
      (w.leading.length = 3 ∧ ∃ version,
        WrittenVersion.read? (dotted w.leading ++ w.suffix) = some version ∧
          ∃ piece ∈ version.prerelease, piece.all Char.isDigit = true ∧ digitLimit < piece.length))

theorem short_not_numeral {text suffix : List Char} {stopped : PartialVersion}
    {cause : NumeralFault} : short text suffix stopped ≠ .error (.numeral cause) := by
  intro refused
  obtain ⟨_, range⟩ := fault_of_short refused
  cases range

theorem readFull_numeral_iff {text suffix : List Char} {m n p : Nat} :
    (∃ cause, readFull text m n p suffix = .error (.numeral cause)) ↔
      ∃ cause, Version.parseChars ((Version.release m n p).mainChars ++ suffix) =
        .error (.numeral cause) := by
  unfold readFull
  split <;> simp [*]

theorem parseChars_numeral_iff {text : List Char} :
    (∃ cause, parseChars text = .error (.numeral cause)) ↔ Overlong text := by
  cases writtenText : Written.read? text with
  | none => simp [parseChars, Overlong, writtenText]
  | some w =>
      have formed := Written.formed_of_read? writtenText
      have forms (digits : List Char) (among : digits ∈ w.leading) : isNumericForm digits = true :=
        Written.isNumericForm_of_mem_leading formed among
      simp only [Overlong, writtenText, Option.some.injEq, exists_eq_left']
      rw [parseChars_eq writtenText]
      cases numbersRead : w.leading.mapM readNumeral with
      | error cause =>
          obtain ⟨digits, among, fails⟩ := mapM_fails_iff.mp ⟨cause, numbersRead⟩
          have long := readNumeral_eq_error_iff.mp fails
          exact iff_of_true ⟨cause, rfl⟩ (.inl ⟨digits, among, long⟩)
      | ok numbers =>
          have fits : ∀ digits ∈ w.leading, digits.length ≤ digitLimit := by
            intro digits among
            by_contra long
            have fails := readNumeral_eq_error_iff.mpr (Nat.lt_of_not_le long)
            obtain ⟨cause, whole⟩ := mapM_fails_iff.mpr ⟨digits, among, fails⟩
            rw [numbersRead] at whole
            cases whole
          have noneLong : ¬∃ digits ∈ w.leading, digitLimit < digits.length := by
            rintro ⟨digits, among, long⟩
            exact absurd (fits digits among) (Nat.not_le.mpr long)
          obtain ⟨-, written⟩ := (mapM_readNumeral_eq_ok_iff forms).mp numbersRead
          have count : w.leading.length = numbers.length := by rw [← written, List.length_map]
          have few := Written.length_leading_le w
          rw [count] at few
          simp only [noneLong, false_or, count]
          change (∃ cause, ofNumbers text w.suffix numbers = .error (.numeral cause)) ↔ _
          match numbers with
          | [] | [_] | [_, _] => simp [ofNumbers, short_not_numeral]
          | [m, n, p] =>
              -- The version is read from the same numbers, which are known to be short enough.
              have main : dotted w.leading = (Version.release m n p).mainChars := by
                rw [← written]
                rfl
              rw [ofNumbers, readFull_numeral_iff, Version.parseChars_numeral_iff, main]
              simp only [List.length_cons, List.length_nil, true_and]
              refine exists_congr fun version => and_congr_right fun read => ?_
              obtain ⟨versionFormed, whole⟩ := WrittenVersion.read?_eq_some_iff.mp read
              have same : [version.major, version.minor, version.patch] = w.leading := by
                refine WrittenVersion.numbers_eq_of_chars versionFormed (by simp [← written])
                  forms ?_ (main ▸ whole)
                intro c head
                rcases head_of_isSuffix formed.suffix head with rfl | rfl <;> decide
              rw [same]
              exact and_iff_right fits
          | _ :: _ :: _ :: _ :: _ =>
              simp only [List.length_cons] at few
              omega

/-- How a version is written behind its three numbers. -/
def suffixChars (v : Version) : List Char :=
  (if v.prerelease.isEmpty then [] else '-' :: v.prereleaseChars) ++
    (if v.build.isEmpty then [] else '+' :: v.buildChars)

theorem chars_eq_numbers_append (v : Version) :
    v.chars = numeralChars v.major ++
      '.' :: (numeralChars v.minor ++ '.' :: (numeralChars v.patch ++ suffixChars v)) := by
  simp [Version.chars, Version.mainChars, suffixChars, dotted, List.intercalate]

theorem head?_chars_ne_v (v : Version) : v.chars.head? ≠ some 'v' := by
  rw [chars_eq_numbers_append, List.head?_append_of_ne_nil _ (numeralChars_ne_nil v.major)]
  intro head
  exact absurd (isDigit_of_mem_numeralChars (List.mem_of_mem_head? head)) (by decide)

theorem isSuffix_suffixChars {v : Version} (readable : v.Readable) :
    isSuffix (suffixChars v) = true := by
  have allowed (c : Char) (member : c ∈ suffixChars v) : isVersionChar c = true := by
    apply Version.isVersionChar_of_mem_chars readable
    simp [chars_eq_numbers_append, member]
  cases suffix : suffixChars v with
  | nil => rfl
  | cons c rest =>
      have head : c = '-' ∨ c = '+' := by
        unfold suffixChars at suffix
        split at suffix
        · split at suffix
          · cases suffix
          · exact .inr (List.cons.inj suffix).1.symm
        · exact .inl (List.cons.inj suffix).1.symm
      rw [suffix] at allowed
      have others : rest.all isVersionChar = true :=
        List.all_eq_true.mpr fun d member => allowed d (List.mem_cons_of_mem c member)
      simp [isSuffix, head, others]

theorem read?_chars {v : Version} (readable : v.Readable) :
    Written.read? v.chars = some ⟨.number (numeralChars v.major),
      some (.number (numeralChars v.minor)), some (.number (numeralChars v.patch)),
      suffixChars v⟩ := by
  have suffix := isSuffix_suffixChars readable
  have beforeDot (rest : List Char) (c : Char) (head : ('.' :: rest).head? = some c) :
      c.isDigit = false := by
    cases head
    decide
  have beforeSuffix (c : Char) (head : (suffixChars v).head? = some c) : c.isDigit = false := by
    rcases head_of_isSuffix suffix head with rfl | rfl <;> decide
  rw [Written.read?, if_neg (head?_chars_ne_v v), chars_eq_numbers_append,
    readPlace_append (isNumericForm_numeralChars v.major) (beforeDot _)]
  simp only [Option.bind_eq_bind, Option.bind_some]
  rw [readPlace_append (isNumericForm_numeralChars v.minor) (beforeDot _)]
  simp only [Option.bind_some]
  rw [readPlace_append (isNumericForm_numeralChars v.patch) beforeSuffix]
  simp [suffix]

/-- A text that falls into the same places as the written form of a readable version is
read as that version. -/
theorem parseChars_of_read?_eq {v : Version} (readable : v.Readable) {text : List Char}
    (form : Written.read? text = Written.read? v.chars) : parseChars text = .ok (.full v) := by
  have numbers :
      [numeralChars v.major, numeralChars v.minor, numeralChars v.patch].mapM readNumeral =
        .ok [v.major, v.minor, v.patch] := by
    refine (mapM_readNumeral_eq_ok_iff ?_).mpr ⟨?_, rfl⟩
    · simp
    · simp [readable.major, readable.minor, readable.patch]
  rw [parseChars_eq (form.trans (read?_chars readable))]
  simp only [Written.leading, numbers, liftNumeral]
  change readFull text v.major v.minor v.patch (suffixChars v) = _
  refine readFull_eq_ok_iff.mpr ⟨v, readable, ?_, rfl⟩
  simp [chars_eq_numbers_append, Version.mainChars, dotted, List.intercalate]

/-- A readable version is read back from its written form. -/
theorem parseChars_chars {v : Version} (readable : v.Readable) :
    parseChars v.chars = .ok (.full v) :=
  parseChars_of_read?_eq readable rfl

end PartialVersion

end VersionRange
