import Mathlib.Data.List.DropRight
import VersionRange.Json.Printer
import VersionRange.Json.Reader
import VersionRange.Proofs.Numeral
import VersionRange.Proofs.Text.Cutting

/-!
# Rereading numbers

A number is written as a numeral, or with a fraction or an exponent behind it.  The reader
cuts it into the same parts, provided that nothing stands behind it with which it could go on.
-/

namespace VersionRange

open Fallible

def signText (negative : Bool) : List Char :=
  if negative then ['-'] else []

/-- At least one character, and digits only. -/
def IsRun (digits : List Char) : Prop :=
  digits ≠ [] ∧ ∀ c ∈ digits, c.isDigit = true

inductive IsFraction : List Char → Prop
  | absent : IsFraction []
  | present {digits : List Char} (run : IsRun digits) : IsFraction ('.' :: digits)

inductive IsExponent : List Char → Prop
  | absent : IsExponent []
  | present {sign : Char} {digits : List Char} (signed : sign = '+' ∨ sign = '-')
      (run : IsRun digits) : IsExponent ('e' :: sign :: digits)

/-- A number that is not written as a numeral alone, without its sign. -/
inductive IsDecimal : List Char → Prop
  | parts {whole fraction exponent : List Char} (form : isNumericForm whole = true)
      (isFraction : IsFraction fraction) (isExponent : IsExponent exponent)
      (more : fraction ++ exponent ≠ []) : IsDecimal (whole ++ (fraction ++ exponent))

/-- No digit stands at the front. -/
def NoDigit (rest : List Char) : Prop :=
  ∀ c, rest.head? = some c → c.isDigit = false

/-- Nothing with which a number could go on stands at the front. -/
def Ends (rest : List Char) : Prop :=
  ∀ c, rest.head? = some c → c.isDigit = false ∧ c ≠ '.' ∧ c ≠ 'e' ∧ c ≠ 'E'

theorem Ends.noDigit {rest : List Char} (ends : Ends rest) : NoDigit rest :=
  fun c head => (ends c head).1

theorem ends_nil : Ends [] := by
  rintro c ⟨⟩

section Parts

variable {whole fraction exponent rest : List Char}

theorem IsRun.head {digits : List Char} (run : IsRun digits) :
    ∃ c more, digits = c :: more ∧ c.isDigit = true := by
  obtain ⟨nonempty, each⟩ := run
  obtain ⟨c, more, rfl⟩ := List.exists_cons_of_ne_nil nonempty
  exact ⟨c, more, rfl, each c List.mem_cons_self⟩

theorem isRun_of_isNumericForm (form : isNumericForm whole = true) : IsRun whole :=
  have ⟨nonempty, each, _⟩ := isNumericForm_iff.mp form
  ⟨nonempty, each⟩

theorem isNumericForm_of_head {digits : List Char} (run : IsRun digits)
    (noZero : digits.head? ≠ some '0') : isNumericForm digits = true :=
  isNumericForm_iff.mpr ⟨run.1, run.2, fun zero => absurd zero noZero⟩

theorem isRun_numeralChars (n : Nat) : IsRun (numeralChars n) :=
  ⟨numeralChars_ne_nil n, fun _ member => isDigit_of_mem_numeralChars member⟩

theorem isDigit_of_mem_zeros {count : Nat} {c : Char} (member : c ∈ List.replicate count '0') :
    c.isDigit = true := by
  rw [List.eq_of_mem_replicate member]
  rfl

theorem IsRun.append_zeros {digits : List Char} (run : IsRun digits) (count : Nat) :
    IsRun (digits ++ List.replicate count '0') :=
  ⟨List.append_ne_nil_of_left_ne_nil run.1 _, fun c member =>
    (List.mem_append.mp member).elim (run.2 c) isDigit_of_mem_zeros⟩

theorem IsRun.zeros_append {digits : List Char} (run : IsRun digits) (count : Nat) :
    IsRun (List.replicate count '0' ++ digits) :=
  ⟨List.append_ne_nil_of_right_ne_nil _ run.1, fun c member =>
    (List.mem_append.mp member).elim isDigit_of_mem_zeros (run.2 c)⟩

theorem IsRun.drop {digits : List Char} (run : IsRun digits) {count : Nat}
    (few : count < digits.length) : IsRun (digits.drop count) :=
  ⟨by simpa using few, fun c member => run.2 c (List.mem_of_mem_drop member)⟩

theorem isNumericForm_take {digits : List Char} (run : IsRun digits)
    (noZero : digits.head? ≠ some '0') {count : Nat} (some : 0 < count) :
    isNumericForm (digits.take count) = true := by
  refine isNumericForm_of_head ⟨?_, fun c member => run.2 c (List.mem_of_mem_take member)⟩ ?_
  · simp [run.1, Nat.ne_of_gt some]
  · rwa [List.head?_take, if_neg (Nat.ne_of_gt some)]

theorem IsDecimal.head {body : List Char} (decimal : IsDecimal body) :
    ∃ c more, body = c :: more ∧ c.isDigit = true := by
  cases decimal with
  | @parts whole fraction exponent form =>
      obtain ⟨c, more, rfl, digit⟩ := (isRun_of_isNumericForm form).head
      exact ⟨c, more ++ (fraction ++ exponent), rfl, digit⟩

theorem IsExponent.noDigit_append (isExponent : IsExponent exponent) (ends : Ends rest) :
    NoDigit (exponent ++ rest) := by
  cases isExponent with
  | absent => exact ends.noDigit
  | present => rintro c ⟨⟩; rfl

theorem IsFraction.noDigit_append (isFraction : IsFraction fraction) (noDigit : NoDigit rest) :
    NoDigit (fraction ++ rest) := by
  cases isFraction with
  | absent => exact noDigit
  | present => rintro c ⟨⟩; rfl

namespace Binary64

theorem readPower_signed {sign : Char} {digits : List Char} (signed : sign = '+' ∨ sign = '-')
    (run : IsRun digits) : ∃ power, readPower (sign :: digits) = some power := by
  have number : readPower.power digits = some (digitsValue digits) := by
    have notEmpty : digits.isEmpty = false := by simpa using run.1
    have allDigits : digits.all Char.isDigit = true := List.all_eq_true.mpr run.2
    simp [readPower.power, notEmpty, allDigits]
  rcases signed with rfl | rfl
  · exact ⟨_, by rw [readPower, number]; rfl⟩
  · exact ⟨_, by rw [readPower, number]; rfl⟩

/-- The exponent at the end of a decimal is read, whatever it changes. -/
theorem exists_ofExponent (isExponent : IsExponent exponent) (number : Int → Binary64) :
    ∃ x, (match exponent with
      | [] => some (number 0)
      | e :: power =>
        if e = 'e' || e = 'E' then (readPower power).map number else none) = some x := by
  cases isExponent with
  | absent => exact ⟨_, rfl⟩
  | present signed run =>
      obtain ⟨power, read⟩ := readPower_signed signed run
      exact ⟨number power, by simp [read]⟩

theorem ofUnsigned?_decimal {body : List Char} (negative : Bool) (decimal : IsDecimal body) :
    ∃ x, ofUnsigned? negative body = some x := by
  cases decimal with
  | @parts whole fraction exponent form isFraction isExponent more =>
      obtain ⟨nonempty, each⟩ := isRun_of_isNumericForm form
      have noDigit : NoDigit exponent := by
        simpa using isExponent.noDigit_append ends_nil
      have boundary := isFraction.noDigit_append noDigit
      have someDigit (digits : List Char) : (whole ++ digits).isEmpty = false := by
        simp [nonempty]
      unfold ofUnsigned?
      rw [takeWhile_front each boundary, dropWhile_front each boundary]
      cases isFraction with
      | absent =>
          have noPoint : ∀ rest, exponent ≠ '.' :: rest := by
            cases isExponent <;> simp
          simp only [List.nil_append, someDigit, Bool.false_eq_true, if_false]
          exact exists_ofExponent isExponent fun power => ofDecimal negative _ (power - _)
      | @present digits run =>
          have fractionDigits := takeWhile_front run.2 noDigit
          have behind := dropWhile_front run.2 noDigit
          simp only [List.cons_append, fractionDigits, behind, someDigit, Bool.false_eq_true,
            if_false]
          exact exists_ofExponent isExponent fun power => ofDecimal negative _ (power - _)

theorem exists_unless_named {negative : Bool} {body : List Char}
    (read : ∃ x, ofUnsigned? negative body = some x) (name : String) :
    ∃ x, (if name = "nan" then some nan
      else if name = "inf" || name = "infinity" then some (infinite negative)
      else ofUnsigned? negative body) = some x := by
  split
  · exact ⟨_, rfl⟩
  · split
    · exact ⟨_, rfl⟩
    · exact read

theorem ofText?_decimal {body : List Char} (negative : Bool) (decimal : IsDecimal body) :
    ∃ x, ofText? (signText negative ++ body) = some x := by
  have read := ofUnsigned?_decimal negative decimal
  cases negative with
  | true => exact exists_unless_named read _
  | false =>
      obtain ⟨c, more, rfl, digit⟩ := decimal.head
      have noMinus (rest : List Char) : c :: more ≠ '-' :: rest := by
        rintro ⟨⟩
        cases digit
      have noPlus (rest : List Char) : c :: more ≠ '+' :: rest := by
        rintro ⟨⟩
        cases digit
      change ∃ x, ofText? (c :: more) = some x
      rw [ofText?.eq_3 _ noMinus noPlus]
      exact exists_unless_named read _

end Binary64

theorem whole_append (form : isNumericForm whole = true) (noDigit : NoDigit rest) :
    (if (whole ++ rest).head? = some '0' then ['0']
      else (whole ++ rest).takeWhile Char.isDigit) = whole := by
  obtain ⟨nonempty, each, noZero⟩ := isNumericForm_iff.mp form
  rw [List.head?_append_of_ne_nil _ nonempty, takeWhile_front each noDigit]
  split
  next zero => exact (noZero zero).symm
  · rfl

theorem fractionOf_append (isFraction : IsFraction fraction) (noDigit : NoDigit rest)
    (noPoint : rest.head? ≠ some '.') : Json.fractionOf (fraction ++ rest) = fraction := by
  cases isFraction with
  | absent =>
      rw [List.nil_append]
      unfold Json.fractionOf
      split
      · exact absurd rfl noPoint
      · rfl
  | present run =>
      have notEmpty : ¬_ = [] := run.1
      simp [Json.fractionOf, takeWhile_front run.2 noDigit, notEmpty]

theorem exponentOf_append (isExponent : IsExponent exponent) (ends : Ends rest) :
    Json.exponentOf (exponent ++ rest) = exponent := by
  cases isExponent with
  | absent =>
      rw [List.nil_append]
      cases rest with
      | nil => rfl
      | cons c rest =>
          obtain ⟨-, -, small, large⟩ := ends c rfl
          simp [Json.exponentOf, small, large]
  | present signed run =>
      have notEmpty : ¬_ = [] := run.1
      simp [Json.exponentOf, signed, takeWhile_front run.2 ends.noDigit, notEmpty]

theorem IsExponent.noPoint_append (isExponent : IsExponent exponent) (ends : Ends rest) :
    (exponent ++ rest).head? ≠ some '.' := by
  cases isExponent with
  | absent =>
      intro head
      exact (ends '.' head).2.1 rfl
  | present => simp

end Parts

namespace Json

variable {whole fraction exponent rest : List Char}

/-- The value that a number with these parts is read as. -/
inductive Valued (negative : Bool) (whole fraction exponent : List Char) : Value → Prop
  | int {n : Nat} (alone : (fraction.isEmpty && exponent.isEmpty) = true)
      (numeral : readNumeral whole = .ok n) :
      Valued negative whole fraction exponent (.int (if negative then -(n : Int) else n))
  | float {x : Binary64} (more : (fraction.isEmpty && exponent.isEmpty) = false)
      (nearest :
        Binary64.ofText? (signText negative ++ (whole ++ (fraction ++ exponent))) = some x) :
      Valued negative whole fraction exponent (.float x)

/-- The reader cuts a number into the parts that it was put together from. -/
theorem readNumber_append {negative : Bool} {value : Value} (form : isNumericForm whole = true)
    (isFraction : IsFraction fraction) (isExponent : IsExponent exponent)
    (valued : Valued negative whole fraction exponent value) (ends : Ends rest) (offset : Nat) :
    let number := signText negative ++ (whole ++ (fraction ++ exponent))
    readNumber ⟨offset, number ++ rest⟩ = .ok (value, ⟨offset + number.length, rest⟩) := by
  intro number
  have text_eq : number ++ rest =
      signText negative ++ (whole ++ (fraction ++ (exponent ++ rest))) := by
    simp only [number, List.append_assoc]
  have number_eq : signText negative ++ whole ++ fraction ++ exponent = number := by
    simp only [number, List.append_assoc]
  obtain ⟨c, more, split, digit⟩ := (isRun_of_isNumericForm form).head
  have noMinus : c ≠ '-' := by
    rintro rfl
    cases digit
  have boundary := isFraction.noDigit_append (isExponent.noDigit_append ends)
  unfold readNumber
  extract_lets signed sign body front behind ofFraction ofExponent length finish
  have signed_iff : signed ↔ negative = true := by
    cases negative <;> simp [signed, text_eq, signText, split, noMinus]
  have sign_eq : sign = signText negative := by
    simp only [sign, signed_iff, signText]
  have body_eq : body = whole ++ (fraction ++ (exponent ++ rest)) := by
    simp only [body, sign_eq, text_eq, List.drop_left]
  have front_eq : front = whole := by
    simp only [front, body_eq]
    exact whole_append form boundary
  have behind_eq : behind = fraction ++ (exponent ++ rest) := by
    simp only [behind, body_eq, front_eq, List.drop_left]
  have fraction_eq : ofFraction = fraction := by
    simp only [ofFraction, behind_eq]
    exact fractionOf_append isFraction (isExponent.noDigit_append ends)
      (isExponent.noPoint_append ends)
  have exponent_eq : ofExponent = exponent := by
    simp only [ofExponent, behind_eq, fraction_eq, List.drop_left]
    exact exponentOf_append isExponent ends
  have length_eq : length = number.length := by
    simp only [length, number, sign_eq, front_eq, fraction_eq, exponent_eq, List.length_append,
      Nat.add_assoc]
  have finish_eq : finish = ⟨offset + number.length, rest⟩ := by
    simp only [finish, length_eq, List.drop_left]
  have notEmpty : whole.isEmpty = false := by simp [split]
  simp only [front_eq, notEmpty, fraction_eq, exponent_eq, finish_eq, sign_eq, signed_iff,
    number_eq, Bool.false_eq_true, if_false]
  cases valued with
  | int alone numeral => simp only [alone, numeral, if_true]
  | float more nearest =>
      have nearest : Binary64.ofText? number = some _ := nearest
      simp only [more, nearest, Bool.false_eq_true, if_false]

theorem toList_intText (n : Int) :
    (Value.intText n).toList = signText (decide (n < 0)) ++ numeralChars n.natAbs := by
  unfold Value.intText signText
  split
  next below => simp [below]
  next above => simp [above]

theorem readNumber_intText {n : Int} (short : isWritableNumeral n.natAbs = true)
    (ends : Ends rest) (offset : Nat) :
    ∃ finish, readNumber ⟨offset, (Value.intText n).toList ++ rest⟩ =
      .ok (.int n, ⟨finish, rest⟩) := by
  have form := isNumericForm_numeralChars n.natAbs
  have numeral := (readNumeral_eq_ok_iff form).mpr ⟨rfl, short⟩
  have valued : Valued (decide (n < 0)) (numeralChars n.natAbs) [] [] _ := .int rfl numeral
  have read := readNumber_append form .absent .absent valued ends offset
  simp only [List.append_nil] at read
  have value : (if decide (n < 0) = true then -(n.natAbs : Int) else n.natAbs) = n := by
    split
    next below =>
      have negative : n < 0 := of_decide_eq_true below
      omega
    next above =>
      have nonnegative : ¬n < 0 := fun negative => above (decide_eq_true negative)
      omega
  rw [value] at read
  rw [toList_intText]
  exact ⟨_, read⟩

theorem readNumber_decimal {body : List Char} {negative : Bool} {x : Binary64}
    (decimal : IsDecimal body) (number : Binary64.ofText? (signText negative ++ body) = some x)
    (ends : Ends rest) (offset : Nat) :
    ∃ finish, readNumber ⟨offset, signText negative ++ body ++ rest⟩ =
      .ok (.float x, ⟨finish, rest⟩) := by
  cases decimal with
  | @parts whole fraction exponent form isFraction isExponent more =>
      have valued : Valued negative whole fraction exponent (.float x) :=
        .float (by simpa using more) number
      exact ⟨_, readNumber_append form isFraction isExponent valued ends offset⟩

end Json

namespace Binary64

theorem isDecimal_fraction {whole digits : List Char} (form : isNumericForm whole = true)
    (run : IsRun digits) : IsDecimal (whole ++ '.' :: digits) := by
  have decimal := IsDecimal.parts form (.present run) .absent (by simp)
  rwa [List.append_nil] at decimal

/-- Digits are laid out as a decimal wherever the point stands. -/
theorem isDecimal_layout {digits : List Char} (run : IsRun digits)
    (noZero : digits.head? ≠ some '0') (point : Int) : IsDecimal (layout digits point) := by
  unfold layout
  split
  · split
    · exact isDecimal_fraction (show isNumericForm ['0'] = true from rfl) (run.zeros_append _)
    next positive =>
      split
      · have whole := run.append_zeros (point.natAbs - digits.length)
        have form := isNumericForm_of_head whole (by rwa [List.head?_append_of_ne_nil _ run.1])
        exact isDecimal_fraction form (isRun_numeralChars 0)
      · exact isDecimal_fraction (isNumericForm_take run noZero (by omega))
          (run.drop (by omega))
  · have form := isNumericForm_take run noZero Nat.one_pos
    have signed : (if point - 1 < 0 then '-' else '+') = '+' ∨
        (if point - 1 < 0 then '-' else '+') = '-' := by
      split <;> simp
    have power := (isRun_numeralChars (point - 1).natAbs).zeros_append
      (2 - (numeralChars (point - 1).natAbs).length)
    have isFraction : IsFraction (if digits.length ≤ 1 then [] else '.' :: digits.drop 1) := by
      split
      · exact .absent
      · exact .present (run.drop (by omega))
    have decimal := IsDecimal.parts form isFraction (.present signed power) (by simp)
    rwa [← List.append_assoc] at decimal

theorem contains_zero {interval : ReadingInterval} (positive : 0 < interval.low.1) {den : Nat}
    (someDen : 0 < den) : interval.contains (0, den) = false := by
  obtain ⟨⟨low, lowDen⟩, ⟨high, highDen⟩, closed⟩ := interval
  have above : 0 < low * den := Nat.mul_pos positive someDen
  unfold ReadingInterval.contains ratioLE
  cases closed <;> simp [Nat.ne_of_gt above]

/-- Zero is not read as a number other than zero. -/
theorem contains_decimalRatio_zero {mantissa : Nat} (nonzero : mantissa ≠ 0)
    (exponent power : Int) :
    (readingInterval mantissa exponent).contains (decimalRatio 0 power) = false := by
  have positive : 0 < (readingInterval mantissa exponent).low.1 := by
    unfold readingInterval
    dsimp only
    have scaled (k : Nat) (shift : Int) (some : 0 < k) : 0 < (magnitude k shift).1 := by
      unfold magnitude scaleDown
      split
      · exact Nat.mul_pos some (Nat.pow_pos (by decide))
      · exact some
    apply scaled
    split <;> omega
  unfold decimalRatio
  split
  · exact contains_zero positive (Nat.pow_pos (by decide))
  · rw [Nat.zero_mul]
    exact contains_zero positive Nat.one_pos

theorem gridPoint_ne_zero {mantissa : Nat} (nonzero : mantissa ≠ 0) {exponent top : Int}
    {num den count : Nat} {found : Nat × Int}
    (isPoint : gridPoint (readingInterval mantissa exponent) num den top count = some found) :
    found.1 ≠ 0 := by
  unfold gridPoint at isPoint
  extract_lets power at isPoint
  split at isPoint
  next n d _ =>
    have above (reads : (readingInterval mantissa exponent).contains
        (decimalRatio (n / d) power) = true) : n / d ≠ 0 := by
      intro zero
      rw [zero, contains_decimalRatio_zero nonzero] at reads
      cases reads
    dsimp only at isPoint
    split at isPoint
    next reads _ =>
      cases isPoint
      exact above reads
    · cases isPoint
      exact Nat.succ_ne_zero _
    next reads _ =>
      split at isPoint
      · cases isPoint
        exact above reads
      · cases isPoint
        exact Nat.succ_ne_zero _
    · cases isPoint

theorem shortest_ne_zero {mantissa : Nat} (nonzero : mantissa ≠ 0) (exponent : Int) :
    (shortest mantissa exponent).1 ≠ 0 := by
  unfold shortest
  split
  next num den _ =>
    extract_lets top interval
    cases found : (List.range 17).findSome? fun i => gridPoint interval num den top (i + 1) with
    | none => exact nonzero
    | some point =>
        obtain ⟨i, -, isPoint⟩ := List.exists_of_findSome?_eq_some found
        exact gridPoint_ne_zero nonzero isPoint

/-- The digits of a number without the zeros at their end. -/
theorem isRun_rdropWhile {n : Nat} (nonzero : n ≠ 0) :
    IsRun ((numeralChars n).rdropWhile (· = '0')) ∧
      ((numeralChars n).rdropWhile (· = '0')).head? ≠ some '0' := by
  have front := List.rdropWhile_prefix (l := numeralChars n) (p := fun c => decide (c = '0'))
  have noZero : (numeralChars n).head? ≠ some '0' :=
    fun zero => nonzero (head?_numeralChars_eq_zero zero)
  have someDigit : (numeralChars n).rdropWhile (· = '0') ≠ [] := by
    intro empty
    have zeros := List.rdropWhile_eq_nil_iff.mp empty
    obtain ⟨c, more, split, -⟩ := (isRun_numeralChars n).head
    rw [split] at zeros noZero
    exact noZero (congrArg some (of_decide_eq_true (zeros c List.mem_cons_self)))
  refine ⟨⟨someDigit, fun c member => (isRun_numeralChars n).2 c (front.subset member)⟩, ?_⟩
  obtain ⟨zeros, split⟩ := front
  rwa [← split, List.head?_append_of_ne_nil _ someDigit] at noZero

theorem isDecimal_text (negative : Bool) (mantissa : Nat) (exponent : Int) :
    ∃ body, (text (.finite negative mantissa exponent)).toList = signText negative ++ body ∧
      IsDecimal body := by
  have signed (body : List Char) : (String.ofList (if negative then '-' :: body else body)).toList =
      signText negative ++ body := by
    cases negative <;> simp [signText]
  refine ⟨_, signed _, ?_⟩
  split
  · exact isDecimal_fraction (show isNumericForm ['0'] = true from rfl) (isRun_numeralChars 0)
  next nonzero =>
    obtain ⟨run, noZero⟩ := isRun_rdropWhile (shortest_ne_zero nonzero exponent)
    exact isDecimal_layout run noZero _

end Binary64

end VersionRange
