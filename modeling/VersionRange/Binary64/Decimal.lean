import VersionRange.Binary64.Basic

/-!
# Decimal texts of binary floating-point numbers

A number is written with the fewest significant digits that read back as the
same number; of two candidates of that length the nearer one is taken.  The
search runs over grids of 1, 2, … 17 digits and tests the two grid points next to
the exact value.  Numbers from `0.0001` up to but not including `10 ^ 16` are
written positionally, always with a fraction; all others carry a signed exponent
of at least two digits.
-/

namespace VersionRange.Binary64

/-- An exact ratio compared with another one. -/
def ratioLE (a b c d : Nat) : Bool := a * d ≤ c * b

/-- `digits · 10 ^ power` as a ratio. -/
def decimalRatio (digits : Nat) (power : Int) : Nat × Nat :=
  if power < 0 then (digits, Nat.pow 10 power.natAbs)
  else (digits * Nat.pow 10 power.natAbs, 1)

/-- The reals that are read as `mantissa · 2 ^ exponent`: both ends of the
interval, as ratios, and whether the ends belong to it. -/
structure ReadingInterval where
  low : Nat × Nat
  high : Nat × Nat
  closed : Bool

/-- Half-way to the neighbours; the lower neighbour of a power of two is closer. -/
def readingInterval (mantissa : Nat) (exponent : Int) : ReadingInterval :=
  let below := if mantissa = Nat.pow 2 52 && exponent > -1074 then 1 else 2
  { low := magnitude (4 * mantissa - below) (exponent - 2)
    high := magnitude (4 * mantissa + 2) (exponent - 2)
    closed := mantissa % 2 == 0 }

def ReadingInterval.contains (interval : ReadingInterval) (value : Nat × Nat) : Bool :=
  let (a, b) := interval.low
  let (c, d) := interval.high
  let (n, m) := value
  if interval.closed then ratioLE a b n m && ratioLE n m c d
  else !ratioLE n m a b && !ratioLE c d n m

/-- The largest `k` with `10 ^ k ≤ num / den`, for a positive ratio whose binary
logarithm is known. -/
def floorLog10 (num den : Nat) : Int :=
  let first := Int.fdiv (floorLog2 num den * 30103) 100000 - 1
  let step (k : Int) : Int :=
    let (a, b) := decimalRatio 1 (k + 1)
    if ratioLE a b num den then k + 1 else k
  step (step (step first))

/-- The grid point of `count` digits that reads back, if there is one. -/
def gridPoint (interval : ReadingInterval) (num den : Nat) (top : Int) (count : Nat) :
    Option (Nat × Int) :=
  let power := top - (count : Int) + 1
  let (n, d) :=
    if power < 0 then (num * Nat.pow 10 power.natAbs, den)
    else (num, den * Nat.pow 10 power.natAbs)
  let floor := n / d
  let floorReads := interval.contains (decimalRatio floor power)
  let ceilReads := interval.contains (decimalRatio (floor + 1) power)
  match floorReads, ceilReads with
  | true, false => some (floor, power)
  | false, true => some (floor + 1, power)
  | true, true =>
    let twice := 2 * (n % d)
    if twice < d || (twice == d && floor % 2 == 0) then some (floor, power)
    else some (floor + 1, power)
  | false, false => none

/-- The shortest decimal `digits · 10 ^ power` that is read as the given number. -/
def shortest (mantissa : Nat) (exponent : Int) : Nat × Int :=
  let (num, den) := magnitude mantissa exponent
  let top := floorLog10 num den
  let interval := readingInterval mantissa exponent
  ((List.range 17).findSome? fun i => gridPoint interval num den top (i + 1)).getD
    (mantissa, exponent)

/-- The layout of the shortest decimal: `point` is the number of digits in front
of the decimal point, or minus the number of zeros behind it. -/
def layout (digits : List Char) (point : Int) : List Char :=
  if -3 ≤ point && point ≤ 16 then
    if point ≤ 0 then
      '0' :: '.' :: (List.replicate point.natAbs '0' ++ digits)
    else if digits.length ≤ point.natAbs then
      digits ++ List.replicate (point.natAbs - digits.length) '0' ++ ['.', '0']
    else
      digits.take point.natAbs ++ '.' :: digits.drop point.natAbs
  else
    let power := point - 1
    let powerDigits := numeralChars power.natAbs
    digits.take 1 ++ (if digits.length ≤ 1 then [] else '.' :: digits.drop 1) ++
      'e' :: (if power < 0 then '-' else '+') ::
        (List.replicate (2 - powerDigits.length) '0' ++ powerDigits)

/-- The text of a number. -/
def text : Binary64 → String
  | nan => "nan"
  | infinite negative => if negative then "-inf" else "inf"
  | finite negative mantissa exponent =>
    let body :=
      if mantissa = 0 then ['0', '.', '0']
      else
        let (digits, power) := shortest mantissa exponent
        let all := numeralChars digits
        let point : Int := all.length + power
        layout (all.reverse.dropWhile (· = '0')).reverse point
    String.ofList (if negative then '-' :: body else body)

/-- The signed number at the front of an exponent: an optional sign and digits. -/
def readPower : List Char → Option Int
  | '-' :: digits => power digits |>.map fun n => -(n : Int)
  | '+' :: digits => power digits |>.map fun n => (n : Int)
  | digits => power digits |>.map fun n => (n : Int)
where
  power (digits : List Char) : Option Nat :=
    if digits.isEmpty || !digits.all Char.isDigit then none else some (digitsValue digits)

/-- Reads an unsigned decimal: digits with at most one point, at least one digit
in all, and an optional exponent. -/
def ofUnsigned? (negative : Bool) (chars : List Char) : Option Binary64 :=
  let whole := chars.takeWhile Char.isDigit
  let rest := chars.dropWhile Char.isDigit
  let (fraction, rest) :=
    match rest with
    | '.' :: more => (more.takeWhile Char.isDigit, more.dropWhile Char.isDigit)
    | _ => ([], rest)
  let digits := whole ++ fraction
  if digits.isEmpty then none
  else
    let number (power : Int) :=
      ofDecimal negative (digitsValue digits) (power - fraction.length)
    match rest with
    | [] => some (number 0)
    | e :: power =>
      if e = 'e' || e = 'E' then (readPower power).map number else none

/-- Reads a decimal with an optional sign, or one of the names of the values that
are not finite, in any case. -/
def ofText? (chars : List Char) : Option Binary64 :=
  let (negative, body) :=
    match chars with
    | '-' :: rest => (true, rest)
    | '+' :: rest => (false, rest)
    | _ => (false, chars)
  let name := String.ofList (body.map Char.toLower)
  if name = "nan" then some nan
  else if name = "inf" || name = "infinity" then some (infinite negative)
  else ofUnsigned? negative body

example : text (ofDecimal false 1 16) = "1e+16" := by decide +kernel

example : text (ofDecimal false 1 15) = "1000000000000000.0" := by decide +kernel

example : text (ofDecimal true 12345678 (-13)) = "-1.2345678e-06" := by decide +kernel

example : text (ofDecimal false 5 (-324)) = "5e-324" := by decide +kernel

end VersionRange.Binary64
