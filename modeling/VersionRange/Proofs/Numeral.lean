import Mathlib.Data.List.Induction
import VersionRange.Proofs.Fallible
import VersionRange.Version.Parser

/-!
# Numerals without leading zeros

A run of digits without a leading zero is the numeral of exactly one number, so
that reading and writing numbers undo each other within the limit on their length.
-/

namespace VersionRange

open Fallible

theorem isNumericForm_iff {digits : List Char} :
    isNumericForm digits = true ↔
      digits ≠ [] ∧ (∀ c ∈ digits, c.isDigit = true) ∧
        (digits.head? = some '0' → digits = ['0']) := by
  rcases digits with _ | ⟨c, _ | ⟨d, rest⟩⟩
  · simp [isNumericForm]
  · by_cases zero : c = '0'
    · subst zero
      simp [isNumericForm]
    · simp [isNumericForm, zero]
  · by_cases zero : c = '0' <;> simp [isNumericForm, zero]

theorem isNumericForm_replicate {n : Nat} {c : Char} (some : n ≠ 0) (digit : c.isDigit = true)
    (nonzero : c ≠ '0') : isNumericForm (List.replicate n c) = true := by
  refine isNumericForm_iff.mpr ⟨by simp [some], ?_, ?_⟩
  · intro d member
    rwa [List.eq_of_mem_replicate member]
  · intro head
    rw [List.head?_replicate, if_neg some] at head
    exact absurd (Option.some.inj head) nonzero

theorem head?_numeralChars_eq_zero {n : Nat} (head : (numeralChars n).head? = some '0') :
    n = 0 := by
  induction n using Nat.base_induction 10 (by decide) with
  | single m small => simpa [numeralChars, Nat.toDigits_of_lt_base small] using head
  | digit m k small positive ih =>
      rw [numeralChars, ← Nat.toDigits_append_toDigits (by decide) positive small,
        List.head?_append_of_ne_nil _ Nat.toDigits_ne_nil] at head
      have := ih head
      omega

@[simp]
theorem isNumericForm_numeralChars (n : Nat) : isNumericForm (numeralChars n) = true := by
  refine isNumericForm_iff.mpr
    ⟨numeralChars_ne_nil n, fun c member => isDigit_of_mem_numeralChars member, ?_⟩
  intro head
  rw [head?_numeralChars_eq_zero head]
  exact Nat.toDigits_zero 10

theorem numeralChars_injective : Function.Injective numeralChars :=
  Function.LeftInverse.injective digitsValue_numeralChars

theorem digitChar_toNat_sub {c : Char} (digit : c.isDigit = true) :
    Nat.digitChar (c.toNat - '0'.toNat) = c := by
  have bounds := Char.isDigit_iff_toNat.mp digit
  change 48 ≤ c.toNat ∧ c.toNat ≤ 57 at bounds
  apply Char.toNat_inj.mp
  change (Nat.digitChar (c.toNat - 48)).toNat = c.toNat
  rw [Nat.toNat_digitChar_of_lt_ten (by omega)]
  omega

theorem digitsValue_append_singleton (digits : List Char) (c : Char) :
    digitsValue (digits ++ [c]) = 10 * digitsValue digits + (c.toNat - '0'.toNat) := by
  simp [digitsValue, Nat.ofDigitChars_append, Nat.ofDigitChars_cons]

/-- A run of digits without a leading zero is the numeral of its value. -/
theorem numeralChars_digitsValue {digits : List Char} (form : isNumericForm digits = true) :
    numeralChars (digitsValue digits) = digits := by
  induction digits using List.reverseRecOn with
  | nil => simp [isNumericForm] at form
  | append_singleton front c ih =>
      obtain ⟨-, allDigits, noZero⟩ := isNumericForm_iff.mp form
      have digit : c.isDigit = true := allDigits c (by simp)
      have small : c.toNat - '0'.toNat < 10 := by
        have bounds := Char.isDigit_iff_toNat.mp digit
        change 48 ≤ c.toNat ∧ c.toNat ≤ 57 at bounds
        change c.toNat - 48 < 10
        omega
      rw [digitsValue_append_singleton]
      rcases eq_or_ne front [] with rfl | nonempty
      · have empty : digitsValue [] = 0 := rfl
        rw [empty, Nat.mul_zero, Nat.zero_add, numeralChars, Nat.toDigits_of_lt_base small,
          digitChar_toNat_sub digit, List.nil_append]
      · have head : front.head? ≠ some '0' := by
          intro zero
          have whole := noZero (by rw [List.head?_append_of_ne_nil _ nonempty, zero])
          have := congrArg List.length whole
          simp [nonempty] at this
        have frontForm : isNumericForm front = true :=
          isNumericForm_iff.mpr ⟨nonempty, fun d member => allDigits d (by simp [member]),
            fun zero => absurd zero head⟩
        have written := ih frontForm
        have positive : 0 < digitsValue front := by
          rcases Nat.eq_zero_or_pos (digitsValue front) with zero | positive
          · rw [zero] at written
            exact absurd (by rw [← written]; rfl) head
          · exact positive
        rw [numeralChars, ← Nat.toDigits_append_toDigits (by decide) positive small,
          Nat.toDigits_of_lt_base small, digitChar_toNat_sub digit]
        exact congrArg (· ++ [c]) written

/-- Reading a numeral that keeps to the limit gives the number that was written. -/
theorem readNumeral_eq_ok_iff {digits : List Char} (form : isNumericForm digits = true) {n : Nat} :
    readNumeral digits = .ok n ↔ numeralChars n = digits ∧ isWritableNumeral n = true := by
  have written := numeralChars_digitsValue form
  constructor
  · intro read
    unfold readNumeral at read
    split at read
    · cases read
      refine ⟨written, ?_⟩
      simp [isWritableNumeral, *]
    · cases read
  · rintro ⟨rfl, writable⟩
    simpa [readNumeral, isWritableNumeral] using writable

theorem mapM_readNumeral_eq_ok_iff {runs : List (List Char)} {numbers : List Nat}
    (forms : ∀ digits ∈ runs, isNumericForm digits = true) :
    runs.mapM readNumeral = .ok numbers ↔
      (∀ n ∈ numbers, isWritableNumeral n = true) ∧ numbers.map numeralChars = runs :=
  mapM_eq_ok_iff_of_reads fun digits among _ =>
    (readNumeral_eq_ok_iff (forms digits among)).trans and_comm

theorem length_le_of_readNumeral {digits : List Char} {n : Nat}
    (read : readNumeral digits = .ok n) : digits.length ≤ digitLimit := by
  unfold readNumeral at read
  split at read
  next short => exact short
  · cases read

/-- A numeral that is refused is longer than the limit. -/
theorem readNumeral_eq_error_iff {digits : List Char} :
    (∃ fault, readNumeral digits = .error fault) ↔ digitLimit < digits.length := by
  unfold readNumeral
  split <;> simp_all

end VersionRange
