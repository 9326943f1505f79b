import VersionRange.Numeral

/-!
# Binary floating-point numbers

A number of the 64-bit binary format, kept as an exact integer mantissa and a
power of two.  Rounding is to the nearest number of the format, a tie going to
the even mantissa, and is done on exact ratios of natural numbers.
-/

namespace VersionRange

/-- A finite number is `± mantissa · 2 ^ exponent`. -/
inductive Binary64
  | finite (negative : Bool) (mantissa : Nat) (exponent : Int)
  | infinite (negative : Bool)
  | nan
  deriving DecidableEq, Repr

namespace Binary64

/-- The ratio `num / den` scaled by `2 ^ (-shift)`, again as a ratio. -/
def scaleDown (num den : Nat) (shift : Int) : Nat × Nat :=
  if shift < 0 then (num * Nat.pow 2 shift.natAbs, den)
  else (num, den * Nat.pow 2 shift.natAbs)

/-- The quotient rounded to the nearest natural number, a tie to the even one. -/
def roundRatio (num den : Nat) : Nat :=
  let floor := num / den
  let twice := 2 * (num % den)
  if twice < den then floor
  else if den < twice then floor + 1
  else if floor % 2 = 0 then floor else floor + 1

/-- The largest `k` with `2 ^ k ≤ num / den`, for positive `num` and `den`. -/
def floorLog2 (num den : Nat) : Int :=
  let estimate : Int := (num.log2 : Int) - (den.log2 : Int)
  let (n, d) := scaleDown num den estimate
  if d ≤ n then estimate else estimate - 1

/-- The number of the format nearest to `± num / den`. -/
def ofRatio (negative : Bool) (num den : Nat) : Binary64 :=
  if num = 0 then finite negative 0 (-1074)
  else
    let exponent := max (floorLog2 num den - 52) (-1074)
    let (n, d) := scaleDown num den exponent
    let rounded := roundRatio n d
    let (mantissa, exponent) :=
      if rounded = Nat.pow 2 53 then (Nat.pow 2 52, exponent + 1) else (rounded, exponent)
    if exponent > 971 then infinite negative else finite negative mantissa exponent

/-- The number of the format nearest to `± digits · 10 ^ power`.  Magnitudes far
outside the format are settled by the length of the numeral alone. -/
def ofDecimal (negative : Bool) (digits : Nat) (power : Int) : Binary64 :=
  if digits = 0 then finite negative 0 (-1074)
  else
    let places : Int := (numeralChars digits).length + power
    if places > 400 then infinite negative
    else if places < -400 then finite negative 0 (-1074)
    else if power < 0 then ofRatio negative digits (Nat.pow 10 power.natAbs)
    else ofRatio negative (digits * Nat.pow 10 power.natAbs) 1

/-- The magnitude of a finite number as a ratio. -/
def magnitude (mantissa : Nat) (exponent : Int) : Nat × Nat :=
  scaleDown mantissa 1 (-exponent)

/-- Zero of either sign. -/
def isZero : Binary64 → Bool
  | finite _ mantissa _ => mantissa == 0
  | _ => false

/-- The sum, rounded. -/
def add : Binary64 → Binary64 → Binary64
  | finite n₁ m₁ e₁, finite n₂ m₂ e₂ =>
    let (a, b) := magnitude m₁ e₁
    let (c, d) := magnitude m₂ e₂
    if n₁ = n₂ then ofRatio n₁ (a * d + c * b) (b * d)
    else if c * b ≤ a * d then
      ofRatio (if a * d = c * b then false else n₁) (a * d - c * b) (b * d)
    else ofRatio n₂ (c * b - a * d) (b * d)
  | infinite n₁, infinite n₂ => if n₁ = n₂ then infinite n₁ else nan
  | infinite n, finite .. => infinite n
  | finite .., infinite n => infinite n
  | _, _ => nan

/-- The product, rounded. -/
def mul : Binary64 → Binary64 → Binary64
  | finite n₁ m₁ e₁, finite n₂ m₂ e₂ =>
    let (a, b) := magnitude m₁ e₁
    let (c, d) := magnitude m₂ e₂
    ofRatio (n₁ != n₂) (a * c) (b * d)
  | infinite n₁, finite n₂ m _ => if m = 0 then nan else infinite (n₁ != n₂)
  | finite n₁ m _, infinite n₂ => if m = 0 then nan else infinite (n₁ != n₂)
  | infinite n₁, infinite n₂ => infinite (n₁ != n₂)
  | _, _ => nan

/-- The number nearest to a natural number, if that is finite. -/
def ofNat? (n : Nat) : Option Binary64 :=
  match ofRatio false n 1 with
  | finite negative mantissa exponent => some (finite negative mantissa exponent)
  | _ => none

/-- The number of the opposite sign. -/
def negate : Binary64 → Binary64
  | finite n m e => finite (!n) m e
  | infinite n => infinite (!n)
  | nan => nan

/-- Whether the number equals the integer `k` exactly. -/
def equalsInt : Binary64 → Int → Bool
  | finite n m e, k =>
    let (a, b) := magnitude m e
    a == k.natAbs * b && (k == 0 || n == decide (k < 0))
  | _, _ => false

/-- Whether two numbers are one and the same, where zero has no sign. -/
def sameNumber (x y : Binary64) : Bool :=
  x == y || (x.isZero && y.isZero)

example : ofDecimal false 15 (-1) = finite false 6755399441055744 (-52) := by decide +kernel

example : ofDecimal true 1 400 = infinite true := by decide +kernel

example : mul (ofDecimal true 15 (-1)) (ofDecimal false 4 0) = ofDecimal true 6 0 := by
  decide +kernel

example : (ofNat? (Nat.pow 2 1023)).isSome ∧ ofNat? (Nat.pow 2 1024) = none := by
  decide +kernel

end Binary64

end VersionRange
