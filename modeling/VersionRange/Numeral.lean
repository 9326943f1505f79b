/-!
# Decimal numerals

Numbers are unbounded, but a numeral has at most 4300 digits: a longer one is
refused when it is read, and a number that would need more digits is refused
when it is written.
-/

namespace VersionRange

/-- The largest number of digits of a numeral that is read or written. -/
def digitLimit : Nat := 4300

/-- A numeral beyond the limit. -/
inductive NumeralFault
  /-- A numeral with this many digits was to be read. -/
  | tooManyDigits (count : Nat)
  /-- A number with more digits than the limit was to be written. -/
  | tooLargeToWrite
  deriving DecidableEq, Repr

def NumeralFault.message : NumeralFault → String
  | .tooManyDigits count =>
    "Exceeds the limit (4300 digits) for integer string conversion: value has " ++ count.repr ++
      " digits; use sys.set_int_max_str_digits() to increase the limit"
  | .tooLargeToWrite =>
    "Exceeds the limit (4300 digits) for integer string conversion; " ++
      "use sys.set_int_max_str_digits() to increase the limit"

/-- The digits of `n`, without leading zeros. -/
def numeralChars (n : Nat) : List Char :=
  Nat.toDigits 10 n

/-- The number that a run of digits stands for, whatever its length. -/
def digitsValue (digits : List Char) : Nat :=
  Nat.ofDigitChars 10 digits 0

/-- The number that a run of digits stands for, within the limit. -/
def readNumeral (digits : List Char) : Except NumeralFault Nat :=
  if digits.length ≤ digitLimit then .ok (digitsValue digits)
  else .error (.tooManyDigits digits.length)

/-- Whether the numeral of `n` keeps to the limit. -/
def isWritableNumeral (n : Nat) : Bool :=
  (numeralChars n).length ≤ digitLimit

/-- The number `n`, provided that its numeral keeps to the limit. -/
def writableNumeral (n : Nat) : Except NumeralFault Nat :=
  if isWritableNumeral n then .ok n else .error .tooLargeToWrite

@[simp] theorem digitsValue_numeralChars (n : Nat) : digitsValue (numeralChars n) = n :=
  Nat.ofDigitChars_toDigits (by decide) (by decide)

theorem isDigit_of_mem_numeralChars {n : Nat} {c : Char} (member : c ∈ numeralChars n) :
    c.isDigit = true :=
  Nat.isDigit_of_mem_toDigits (by decide) (by decide) member

theorem numeralChars_ne_nil (n : Nat) : numeralChars n ≠ [] :=
  Nat.toDigits_ne_nil

end VersionRange
