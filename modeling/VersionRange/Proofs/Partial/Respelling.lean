import VersionRange.Proofs.Partial.Grammar

/-!
# Respelling partial versions

One partial version can be written in several ways: with any of the wildcards, with or
without what follows the first of them, with or without that wildcard itself unless it
stands first, and with or without a `v` in front.  A text that is read is read as the same
partial version after each of these changes.
-/

namespace VersionRange

open Fallible

theorem dotted_cons_of_ne_nil (piece : List Char) {pieces : List (List Char)}
    (nonempty : pieces ≠ []) : dotted (piece :: pieces) = piece ++ '.' :: dotted pieces := by
  obtain ⟨next, rest, rfl⟩ := List.exists_cons_of_ne_nil nonempty
  simp [dotted, List.intercalate]

namespace PartialVersion

theorem ofNumbers_of_ok {text suffix : List Char} {numbers : List Nat} {p : PartialVersion}
    (read : ofNumbers text suffix numbers = .ok p) (other : List Char) :
    ofNumbers other suffix numbers = .ok p := by
  match numbers with
  | [] | [_] | [_, _] => exact short_eq_ok_iff.mpr (short_eq_ok_iff.mp read)
  | _ :: _ :: _ :: _ => exact readFull_eq_ok_iff.mpr (readFull_eq_ok_iff.mp read)

theorem parseChars_of_alike {text other : List Char} {w w' : Written} {p : PartialVersion}
    (form : Written.read? text = some w) (otherForm : Written.read? other = some w')
    (leading : w'.leading = w.leading) (suffix : w'.suffix = w.suffix)
    (read : parseChars text = .ok p) : parseChars other = .ok p := by
  rw [parseChars_eq form, bind_eq_ok_iff] at read
  obtain ⟨numbers, numbersRead, whole⟩ := read
  rw [parseChars_eq otherForm, leading, suffix, numbersRead]
  exact ofNumbers_of_ok whole other

/-- With a number missing there is no suffix. -/
theorem suffix_eq_nil_of_parseChars {text : List Char} {w : Written} {p : PartialVersion}
    (form : Written.read? text = some w) (missing : w.leading.length < 3)
    (read : parseChars text = .ok p) : w.suffix = [] := by
  have few := (leading_eq_of_parseChars form read).1
  rw [parseChars_eq form, bind_eq_ok_iff] at read
  obtain ⟨numbers, numbersRead, whole⟩ := read
  have sameLength := (mapM_eq_ok_iff.mp (mapError_eq_ok_iff.mp numbersRead)).length_eq
  match numbers with
  | [] | [_] | [_, _] => exact (short_eq_ok_iff.mp whole).1
  | _ :: _ :: _ :: _ =>
      simp only [List.length_cons] at sameLength
      omega

/-- The places of a text are read one after the other. -/
theorem Written.Spelled.readPlace {w : Written} {body : List Char} (spelled : w.Spelled body) :
    ∃ rest, PartialVersion.readPlace body = some (w.major, rest) ∧
      ∀ second, rest = '.' :: second →
        ∃ minor third, PartialVersion.readPlace second = some (minor, third) ∧
          w.minor = some minor ∧
            ∀ last, third = '.' :: last →
              ∃ patch, PartialVersion.readPlace last = some (patch, w.suffix) ∧
                w.patch = some patch ∧ isSuffix w.suffix = true := by
  have atEnd {place : Place} {front : List Char} (spelled : place.Spelled front) :
      PartialVersion.readPlace front = some (place, []) := by
    have whole : PartialVersion.readPlace (front ++ []) = some (place, []) :=
      readPlace_of_spelled spelled (by simp)
    rwa [List.append_nil] at whole
  have beforeDot {place : Place} {front : List Char} (spelled : place.Spelled front)
      (rest : List Char) :
      PartialVersion.readPlace (front ++ '.' :: rest) = some (place, '.' :: rest) := by
    refine readPlace_of_spelled spelled fun c head => ?_
    cases head
    decide
  cases spelled with
  | one first => exact ⟨_, atEnd first, by simp⟩
  | two first second =>
      refine ⟨_, beforeDot first _, ?_⟩
      rintro _ ⟨⟩
      exact ⟨_, _, atEnd second, rfl, by simp⟩
  | three first second third form =>
      refine ⟨_, beforeDot first _, ?_⟩
      rintro _ ⟨⟩
      refine ⟨_, _, beforeDot second _, rfl, ?_⟩
      rintro _ ⟨⟩
      refine ⟨_, readPlace_of_spelled third fun c head => ?_, rfl, form⟩
      rcases head_of_isSuffix form head with rfl | rfl <;> decide

section FirstWildcard

variable {runs : List (List Char)} {wild : Char} {rest : List Char}

/-- Numbers, then a wildcard, then whatever may follow. -/
def upToWildcard (runs : List (List Char)) (wild : Char) (rest : List Char) : List Char :=
  dotted (runs ++ [[wild]]) ++ rest

theorem upToWildcard_nil : upToWildcard [] wild rest = wild :: rest := by
  simp [upToWildcard, dotted]

theorem upToWildcard_cons (digits : List Char) :
    upToWildcard (digits :: runs) wild rest = digits ++ '.' :: upToWildcard runs wild rest := by
  rw [upToWildcard, List.cons_append, dotted_cons_of_ne_nil _ (by simp), upToWildcard,
    List.append_assoc, List.cons_append]

variable (numbers : ∀ digits ∈ runs, isNumericForm digits = true)
  (isWild : isWildcardChar wild = true)

include numbers isWild

theorem readPlace_upToWildcard :
    readPlace (upToWildcard runs wild rest) =
      match runs with
      | [] => some (.wildcard, rest)
      | digits :: others => some (.number digits, '.' :: upToWildcard others wild rest) := by
  cases runs with
  | nil => rw [upToWildcard_nil, readPlace, if_pos isWild]
  | cons digits others =>
      rw [upToWildcard_cons]
      refine readPlace_append (numbers digits List.mem_cons_self) fun c head => ?_
      cases head
      decide

theorem head?_upToWildcard_ne_v : (upToWildcard runs wild rest).head? ≠ some 'v' := by
  intro head
  have place := @readPlace_upToWildcard runs wild rest numbers isWild
  obtain ⟨more, text⟩ := List.head?_eq_some_iff.mp head
  rw [text] at place
  cases runs <;> cases place

/-- The numbers in front of the first wildcard are those that count. -/
theorem leading_of_upToWildcard {w : Written}
    (read : Written.read? (upToWildcard runs wild rest) = some w) :
    w.leading = runs ∧ runs.length < 3 := by
  obtain ⟨body, spelled, front⟩ := Written.spelled_of_read? read
  have noV := @head?_upToWildcard_ne_v runs wild rest numbers isWild
  have same : upToWildcard runs wild rest = body :=
    front.resolve_right fun marked => noV (by rw [marked]; rfl)
  obtain ⟨afterMajor, major, others⟩ := spelled.readPlace
  obtain ⟨majorPlace, minorPlace, patchPlace, suffix⟩ := w
  rw [← same, readPlace_upToWildcard numbers isWild] at major
  match runs with
  | [] =>
      cases major
      exact ⟨rfl, by simp⟩
  | a :: runs =>
      cases major
      obtain ⟨-, numbers⟩ := List.forall_mem_cons.mp numbers
      obtain ⟨minor, afterMinor, second, rfl, others⟩ := others _ rfl
      rw [readPlace_upToWildcard numbers isWild] at second
      match runs with
      | [] =>
          cases second
          exact ⟨rfl, by simp⟩
      | b :: runs =>
          cases second
          obtain ⟨-, numbers⟩ := List.forall_mem_cons.mp numbers
          obtain ⟨patch, third, rfl, form⟩ := others _ rfl
          rw [readPlace_upToWildcard numbers isWild] at third
          match runs with
          | [] =>
              cases third
              exact ⟨rfl, by simp⟩
          | c :: runs =>
              -- A fourth place is no suffix.
              cases third
              cases form

omit numbers isWild

theorem exists_spelled_upToWildcard (numbers : ∀ digits ∈ runs, isNumericForm digits = true)
    (isWild : isWildcardChar wild = true) (few : runs.length < 3) :
    ∃ w : Written, w.Spelled (upToWildcard runs wild []) ∧ w.leading = runs ∧ w.suffix = [] := by
  match runs with
  | [] => exact ⟨_, .one (.wildcard isWild), rfl, rfl⟩
  | [a] =>
      have first : isNumericForm a = true := numbers a (by simp)
      have spelled := Written.Spelled.two (.number first) (.wildcard isWild)
      exact ⟨_, by simpa [upToWildcard, dotted, List.intercalate] using spelled, rfl, rfl⟩
  | [a, b] =>
      have first : isNumericForm a = true := numbers a (by simp)
      have second : isNumericForm b = true := numbers b (by simp)
      have form : isSuffix [] = true := rfl
      have spelled := Written.Spelled.three (.number first) (.number second) (.wildcard isWild) form
      exact ⟨_, by simpa [upToWildcard, dotted, List.intercalate] using spelled, rfl, rfl⟩
  | _ :: _ :: _ :: _ =>
      simp only [List.length_cons] at few
      omega

theorem exists_spelled_dotted (numbers : ∀ digits ∈ runs, isNumericForm digits = true)
    (some : runs ≠ []) (few : runs.length < 3) :
    ∃ w : Written, w.Spelled (dotted runs) ∧ w.leading = runs ∧ w.suffix = [] := by
  match runs with
  | [] => exact absurd rfl some
  | [a] =>
      have first : isNumericForm a = true := numbers a (by simp)
      have spelled := Written.Spelled.one (.number first)
      exact ⟨_, by simpa [dotted] using spelled, rfl, rfl⟩
  | [a, b] =>
      have first : isNumericForm a = true := numbers a (by simp)
      have second : isNumericForm b = true := numbers b (by simp)
      have spelled := Written.Spelled.two (.number first) (.number second)
      exact ⟨_, by simpa [dotted, List.intercalate] using spelled, rfl, rfl⟩
  | _ :: _ :: _ :: _ =>
      simp only [List.length_cons] at few
      omega

end FirstWildcard

/-- Other wildcards stand at the same places, or everything behind the first wildcard is
dropped, or this wildcard is dropped as well. -/
inductive Rewording : List Char → List Char → Prop
  | wildcards {w : Written} {body other : List Char} (first : w.Spelled body)
      (second : w.Spelled other) : Rewording body other
  | cut {runs : List (List Char)} {wild : Char} {rest : List Char}
      (numbers : ∀ digits ∈ runs, isNumericForm digits = true)
      (isWild : isWildcardChar wild = true) :
      Rewording (upToWildcard runs wild rest) (upToWildcard runs wild [])
  | drop {runs : List (List Char)} {wild : Char} {rest : List Char}
      (numbers : ∀ digits ∈ runs, isNumericForm digits = true)
      (isWild : isWildcardChar wild = true) (some : runs ≠ []) :
      Rewording (upToWildcard runs wild rest) (dotted runs)

/-- A partial version is reworded, or a `v` is put in front of it or taken away. -/
inductive Respelling : List Char → List Char → Prop
  | plain {body other : List Char} (step : Rewording body other) : Respelling body other
  | marked {body other : List Char} (step : Rewording body other) :
      Respelling ('v' :: body) ('v' :: other)
  | mark {w : Written} {body : List Char} (form : w.Spelled body) : Respelling body ('v' :: body)
  | unmark {w : Written} {body : List Char} (form : w.Spelled body) : Respelling ('v' :: body) body

theorem parseChars_of_marked {body : List Char} {p : PartialVersion}
    (noV : body.head? ≠ some 'v') :
    parseChars ('v' :: body) = .ok p ↔ parseChars body = .ok p := by
  constructor
  · intro read
    obtain ⟨w, form⟩ := exists_read?_of_parseChars read
    exact parseChars_of_alike form (by rwa [← read?_v_cons noV]) rfl rfl read
  · intro read
    obtain ⟨w, form⟩ := exists_read?_of_parseChars read
    exact parseChars_of_alike form (by rwa [read?_v_cons noV]) rfl rfl read

theorem Rewording.head?_ne_v {body other : List Char} (step : Rewording body other) :
    body.head? ≠ some 'v' ∧ other.head? ≠ some 'v' := by
  cases step with
  | wildcards first second =>
      exact ⟨(Written.read?_of_spelled first).2, (Written.read?_of_spelled second).2⟩
  | cut numbers isWild =>
      exact ⟨head?_upToWildcard_ne_v numbers isWild, head?_upToWildcard_ne_v numbers isWild⟩
  | drop numbers isWild some =>
      refine ⟨head?_upToWildcard_ne_v numbers isWild, ?_⟩
      intro head
      rcases mem_dotted (List.mem_of_mem_head? head) with dot | ⟨digits, among, inside⟩
      · cases dot
      · exact absurd ((isNumericForm_iff.mp (numbers digits among)).2.1 'v' inside) (by decide)

theorem Rewording.parseChars {body other : List Char} (step : Rewording body other)
    {p : PartialVersion} (read : PartialVersion.parseChars body = .ok p) :
    PartialVersion.parseChars other = .ok p := by
  obtain ⟨w, form⟩ := exists_read?_of_parseChars read
  -- With a wildcard there is no suffix, neither before nor after.
  have shortened {runs : List (List Char)} {w' : Written} (leading : w.leading = runs)
      (few : runs.length < 3) (spelled : w'.Spelled other) (same : w'.leading = runs)
      (none : w'.suffix = []) : PartialVersion.parseChars other = .ok p := by
    have noSuffix := suffix_eq_nil_of_parseChars form (leading ▸ few) read
    exact parseChars_of_alike form (Written.read?_of_spelled spelled).1 (same.trans leading.symm)
      (none.trans noSuffix.symm) read
  cases step with
  | wildcards first second =>
      exact parseChars_of_alike (Written.read?_of_spelled first).1
        (Written.read?_of_spelled second).1 rfl rfl read
  | cut numbers isWild =>
      obtain ⟨leading, few⟩ := leading_of_upToWildcard numbers isWild form
      obtain ⟨w', spelled, same, none⟩ := exists_spelled_upToWildcard numbers isWild few
      exact shortened leading few spelled same none
  | drop numbers isWild some =>
      obtain ⟨leading, few⟩ := leading_of_upToWildcard numbers isWild form
      obtain ⟨w', spelled, same, none⟩ := exists_spelled_dotted numbers some few
      exact shortened leading few spelled same none

theorem Respelling.parseChars {text other : List Char} (step : Respelling text other)
    {p : PartialVersion} (read : PartialVersion.parseChars text = .ok p) :
    PartialVersion.parseChars other = .ok p := by
  cases step with
  | plain step => exact step.parseChars read
  | marked step =>
      obtain ⟨noV, otherNoV⟩ := step.head?_ne_v
      rw [parseChars_of_marked noV] at read
      exact (parseChars_of_marked otherNoV).mpr (step.parseChars read)
  | mark form => exact (parseChars_of_marked (Written.read?_of_spelled form).2).mpr read
  | unmark form => exact (parseChars_of_marked (Written.read?_of_spelled form).2).mp read

/-- A text that can be respelled begins like a partial version. -/
theorem Respelling.begins {text other : List Char} (step : Respelling text other) :
    ∃ c rest, text = c :: rest ∧ (isWildcardChar c = true ∨ c.isDigit = true ∨ c = 'v') := by
  have place {text : List Char} {place : Place × List Char} (read : readPlace text = some place) :
      ∃ c rest, text = c :: rest ∧ (isWildcardChar c = true ∨ c.isDigit = true ∨ c = 'v') := by
    cases text with
    | nil => cases read
    | cons c rest =>
        refine ⟨c, rest, rfl, ?_⟩
        by_contra foreign
        simp only [not_or] at foreign
        obtain ⟨notWild, notDigit, -⟩ := foreign
        have notZero : c ≠ '0' := by
          rintro rfl
          exact notDigit rfl
        simp [readPlace, notWild, notDigit, notZero] at read
  cases step with
  | plain step =>
      cases step with
      | wildcards first second =>
          obtain ⟨rest, read, -⟩ := first.readPlace
          exact place read
      | @cut runs wild rest numbers isWild =>
          cases runs <;> exact place (readPlace_upToWildcard numbers isWild)
      | @drop runs wild rest numbers isWild some =>
          cases runs <;> exact place (readPlace_upToWildcard numbers isWild)
  | marked step => exact ⟨'v', _, rfl, .inr (.inr rfl)⟩
  | mark form =>
      obtain ⟨rest, read, -⟩ := form.readPlace
      exact place read
  | unmark form => exact ⟨'v', _, rfl, .inr (.inr rfl)⟩

end PartialVersion

end VersionRange
