import VersionRange.Json.Reader
import VersionRange.Text.Blank
import VersionRange.Text.UnicodeDigit
import VersionRange.Yaml.Place

/-!
# What plain scalars stand for

A plain scalar is a number, a truth value, a date, a moment or nothing if it is
written like one by the rules of YAML 1.1, and a text otherwise.  Underscores may
stand between the digits of numbers; a leading zero makes a number octal; numbers
may be written in the parts of base sixty, like a time of day.
-/

namespace VersionRange.Yaml

/-- The words for the two truth values. -/
def truthWords : List (String × Bool) :=
  [("yes", true), ("Yes", true), ("YES", true), ("no", false), ("No", false), ("NO", false),
   ("true", true), ("True", true), ("TRUE", true), ("false", false), ("False", false),
   ("FALSE", false), ("on", true), ("On", true), ("ON", true), ("off", false), ("Off", false),
   ("OFF", false)]

/-- The words for nothing. -/
def nothingWords : List String := ["", "~", "null", "Null", "NULL"]

/-- The characters without the underscores. -/
def dropUnderscores (chars : List Char) : List Char :=
  chars.filter (· ≠ '_')

/-- The sign in front and the characters behind it. -/
def splitSign : List Char → Bool × List Char
  | '-' :: rest => (true, rest)
  | '+' :: rest => (false, rest)
  | chars => (false, chars)

def isDigitOrUnderscore (c : Char) : Bool :=
  c.isDigit || c = '_'

/-- A digit of base sixty: up to 59, in one or two decimal digits. -/
def isSixtieth (part : List Char) : Bool :=
  part.all Char.isDigit && (part.length == 1 || (part.length == 2 && part.headD '9' < '6'))

/-- The parts of a number in base sixty: the first has any number of digits and
underscores, and others follow. -/
def sixtyParts? (first : Char → Bool) (chars : List Char) : Option (List (List Char)) :=
  match chars.splitOn ':' with
  | (c :: rest) :: parts =>
    if first c && rest.all isDigitOrUnderscore && !parts.isEmpty && parts.all isSixtieth then
      some ((c :: rest) :: parts)
    else none
  | _ => none

/-- A decimal digit that is not zero. -/
def isLeadingDigit (c : Char) : Bool :=
  c.isDigit && c ≠ '0'

/-- Whether an unsigned text is written like an integer. -/
def isUnsignedInteger : List Char → Bool
  | '0' :: 'b' :: rest => !rest.isEmpty && rest.all fun c => c = '0' || c = '1' || c = '_'
  | '0' :: 'x' :: rest => !rest.isEmpty && rest.all fun c => (Json.hexValue? c).isSome || c = '_'
  | '0' :: rest => rest.all fun c => ('0' ≤ c && c ≤ '7') || c = '_'
  | chars =>
    (chars.head?.any isLeadingDigit && chars.all isDigitOrUnderscore) ||
      (sixtyParts? isLeadingDigit chars).isSome

/-- Whether a text is written like an integer. -/
def isInteger (chars : List Char) : Bool :=
  isUnsignedInteger (splitSign chars).2

/-- The digits without the mark of their base, which may stand in front of them. -/
def dropBaseMark (base : Nat) : List Char → List Char
  | '0' :: mark :: rest =>
    if (base, mark.toLower) ∈ [(2, 'b'), (8, 'o'), (16, 'x')] then rest else '0' :: mark :: rest
  | digits => digits

/-- The integer in a base, with a sign of its own if it has one.  The digits of every script
count; only decimal ones are limited in number. -/
def readInteger (base : Nat) (text : List Char) : Except Fault Int :=
  let (negative, body) := splitSign ((trimBlanks text).map asciiDigit)
  let digits := dropBaseMark base body
  if digits.isEmpty || !digits.all (fun c => (Json.hexValue? c).any (· < base)) then
    .error (.badInteger base (String.ofList text))
  else do
    let n ← if base = 10 then liftNumeral (readNumeral digits) else
      pure (digits.foldl (fun n c => base * n + (Json.hexValue? c).getD 0) 0)
    return if negative then -(n : Int) else n

/-- The integer of a text without sign and underscores.  Its beginning tells the base. -/
def unsignedInteger : List Char → Except Fault Int
  | [] => .error .emptyNumber
  | '0' :: 'b' :: digits => readInteger 2 digits
  | '0' :: 'x' :: digits => readInteger 16 digits
  | '0' :: rest => readInteger 8 ('0' :: rest)
  | chars => do
    let parts ← (chars.splitOn ':').mapM (readInteger 10)
    return parts.foldl (fun n part => 60 * n + part) 0

/-- The integer of a text. -/
def integerOf (chars : List Char) : Except Fault Int := do
  let (negative, body) := splitSign (dropUnderscores chars)
  let n ← unsignedInteger body
  return if negative then -n else n

/-- An exponent, which needs a sign, or nothing at all. -/
def isExponent : List Char → Bool
  | [] => true
  | e :: sign :: digits =>
    (e = 'e' || e = 'E') && (sign = '+' || sign = '-') && !digits.isEmpty &&
      digits.all Char.isDigit
  | _ => false

/-- Whether a text is written like a number with a decimal point.  A number without
digits in front of the point has no sign. -/
def isDecimal (chars : List Char) : Bool :=
  let body := (splitSign chars).2
  let whole := body.takeWhile (· ≠ '.')
  match body.dropWhile (· ≠ '.') with
  | _ :: behind =>
    let places := behind.takeWhile isDigitOrUnderscore
    let power := behind.dropWhile isDigitOrUnderscore
    let startsWhole := whole.head?.any Char.isDigit && whole.all isDigitOrUnderscore
    let startsPlaces := chars.head? = some '.' && places.head?.any Char.isDigit
    ((startsWhole || startsPlaces) && isExponent power) ||
      (power.isEmpty && (sixtyParts? Char.isDigit whole).isSome)
  | [] => false

/-- Whether a text is written like a floating-point number. -/
def isFloat (chars : List Char) : Bool :=
  (splitSign chars).2 ∈ [".inf".toList, ".Inf".toList, ".INF".toList] ||
    chars ∈ [".nan".toList, ".NaN".toList, ".NAN".toList] || isDecimal chars

/-- The number of a part that stands by itself, in the digits of any script. -/
def readFloat (text : List Char) : Except Fault Binary64 :=
  match Binary64.ofText? ((trimBlanks text).map asciiDigit) with
  | some x => .ok x
  | none => .error (.badFloat (String.ofList text))

/-- The sum of the parts, from the last on, each times its power of sixty.  Powers,
products and sums are rounded one by one. -/
def sixtiesFloat (parts : List (List Char)) : Except Fault Binary64 := do
  let numbers ← parts.mapM readFloat
  numbers.reverse.zipIdx.foldlM (fun sum (number, place) =>
    match Binary64.ofNat? (Nat.pow 60 place) with
    | some power => .ok (sum.add (number.mul power))
    | none => .error .beyondFloats) (Binary64.finite false 0 (-1074))

/-- The number of a text without sign and underscores, in small letters. -/
def unsignedFloat (chars : List Char) : Except Fault Binary64 :=
  if chars = ".inf".toList then .ok (.infinite false)
  else if chars = ".nan".toList then .ok .nan
  else if chars.contains ':' then sixtiesFloat (chars.splitOn ':')
  else readFloat chars

/-- The floating-point number of a text. -/
def floatOf (chars : List Char) : Except Fault Binary64 := do
  let chars := (dropUnderscores chars).map Char.toLower
  if chars.isEmpty then throw .emptyNumber
  let (negative, body) := splitSign chars
  let x ← unsignedFloat body
  return if negative then x.negate else x

/-- A step of reading a date, which may not be one. -/
abbrev Scanning := StateT (List Char) Option

namespace Scanning

/-- Takes at least `least` and at most `most` digits. -/
def digits (least most : Nat) : Scanning (List Char) := do
  let taken := ((← get).take most).takeWhile Char.isDigit
  if taken.length < least then failure
  modify (·.drop taken.length)
  return taken

def number (least most : Nat) : Scanning Nat :=
  digitsValue <$> digits least most

/-- Takes a character that is asked for. -/
def mark (c : Char) : Scanning Unit := do
  if (← get).head? ≠ some c then failure
  modify List.tail

def blanks : Scanning (List Char) := do
  let taken := (← get).takeWhile fun c => c = ' ' || c = '\t'
  modify (·.drop taken.length)
  return taken

def atEnd : Scanning Bool :=
  return (← get).isEmpty

/-- Reads the digits behind a point, if there is one, as microseconds. -/
def fraction : Scanning Nat := do
  if (← get).head? = some '.' then
    modify List.tail
    let places := (← get).takeWhile Char.isDigit
    modify (·.drop places.length)
    return digitsValue ((places ++ List.replicate 6 '0').take 6)
  else return 0

/-- Reads a distance from universal time in minutes. -/
def zone : Scanning (Option Int) := do
  if ← atEnd then return none
  let _ ← blanks
  match ← get with
  | [] => failure
  | sign :: rest =>
    set rest
    if sign = 'Z' then return some 0
    if sign ≠ '+' && sign ≠ '-' then failure
    let hours ← number 1 2
    let minutes ← if ← atEnd then pure 0 else do
      mark ':'
      number 2 2
    let total : Int := hours * 60 + minutes
    return some (if sign = '-' then -total else total)

/-- Reads what parts a date from a time of day. -/
def timeMark : Scanning Unit := do
  match (← get).head? with
  | some 'T' | some 't' => modify List.tail
  | _ => if (← blanks).isEmpty then failure

/-- Reads a date, or a date and a time of day.  A date alone has two digits for the
month and the day, unless it is `loose`. -/
def moment (loose : Bool) : Scanning (Date × Option Moment) := do
  let year ← number 4 4
  mark '-'
  let month ← digits 1 2
  mark '-'
  let day ← digits 1 2
  let date : Date := ⟨year, digitsValue month, digitsValue day⟩
  if ← atEnd then
    if !loose && (month.length < 2 || day.length < 2) then failure
    return (date, none)
  timeMark
  let hour ← number 1 2
  mark ':'
  let minute ← number 2 2
  mark ':'
  let second ← number 2 2
  let microsecond ← fraction
  let zone ← zone
  if !(← atEnd) then failure
  return (date, some ⟨date, hour, minute, second, microsecond, zone⟩)

end Scanning

/-- The date or moment that is written, if one is.  It must be in the calendar. -/
def moment? (loose : Bool) (chars : List Char) : Option (Except Fault Value) :=
  ((Scanning.moment loose).run chars).map fun ((date, moment), _) =>
    match moment with
    | none =>
      match date.fault? with
      | some fault => .error (.calendar fault)
      | none => .ok (.date date)
    | some moment =>
      match moment.fault? with
      | some fault => .error (.calendar fault)
      | none => .ok (.moment moment)

/-- What a plain scalar stands for. -/
inductive Meaning
  | value (value : Value)
  /-- The key under which other mappings are merged. -/
  | merge
  /-- The key of a default value. -/
  | default

/-- What a plain scalar stands for by its text. -/
def meaning (text : String) : Except Fault Meaning :=
  let chars := text.toList
  match truthWords.lookup text with
  | some b => .ok (.value (.bool b))
  | none =>
    if isFloat chars then (floatOf chars).map fun x => .value (.float x)
    else if isInteger chars then (integerOf chars).map fun n => .value (.int n)
    else if text = "<<" then .ok .merge
    else if nothingWords.contains text then .ok (.value .null)
    else if text = "=" then .ok .default
    else
      match moment? false chars with
      | some found => found.map .value
      | none => .ok (.value (.text text))

end VersionRange.Yaml
