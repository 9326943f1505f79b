import VersionRange.Text.Surrogate
import VersionRange.Text.Unprintable

/-!
# Quoted texts

Messages show a text between quotes so that its ends and its invisible
characters can be seen.  Single quotes are used unless the text holds a single
quote and no double quote.  The quote in use and the backslash are written
after a backslash, line feed, carriage return and tab by their letters, and
every other character that is not printed by its number in two, four or eight
lower-case hexadecimal digits.
-/

namespace VersionRange

/-- The lower-case hexadecimal digits of `n`, filled up to `width` with zeros. -/
def hexDigits (width n : Nat) : List Char :=
  let digits := Nat.toDigits 16 n
  List.replicate (width - digits.length) '0' ++ digits

namespace Quoted

/-- The quote that goes around `text`. -/
def quoteFor (text : List Char) : Char :=
  if text.contains '\'' && !text.contains '"' then '"' else '\''

/-- A code point by its number. -/
def numbered (n : Nat) : List Char :=
  if n ≤ 0xFF then '\\' :: 'x' :: hexDigits 2 n
  else if n ≤ 0xFFFF then '\\' :: 'u' :: hexDigits 4 n
  else '\\' :: 'U' :: hexDigits 8 n

/-- How one character stands between two quotes. -/
def escape (quote c : Char) : List Char :=
  if c = quote || c = '\\' then ['\\', c]
  else if c = '\n' then ['\\', 'n']
  else if c = '\r' then ['\\', 'r']
  else if c = '\t' then ['\\', 't']
  else if isPrintable c then [c]
  else numbered (codePoint c)

end Quoted

/-- The characters of `text` between quotes. -/
def quotedChars (text : List Char) : List Char :=
  let quote := Quoted.quoteFor text
  quote :: text.flatMap (Quoted.escape quote) ++ [quote]

/-- The text with every half of a surrogate pair by its number, which leaves nothing
that cannot be put out. -/
def withoutStandIns (text : String) : String :=
  String.ofList (text.toList.flatMap fun c =>
    if isStandIn c then Quoted.numbered (codePoint c) else [c])

/-- The text between quotes. -/
def quoted (text : String) : String :=
  String.ofList (quotedChars text.toList)

/-- Bytes between quotes, behind the letter that marks them. -/
def quotedBytes (bytes : List UInt8) : String :=
  let chars := bytes.map fun byte => Char.ofNat byte.toNat
  let quote := Quoted.quoteFor chars
  let escaped := chars.flatMap fun c =>
    if '\x7f' ≤ c then Quoted.numbered c.toNat else Quoted.escape quote c
  String.ofList ('b' :: quote :: escaped ++ [quote])

example : quoted "it's" = "\"it's\"" := by decide +kernel

example : quoted "both'\"" = "'both\\'\"'" := by decide +kernel

example : quotedChars ['a', charOfCodePoint 0xD800] = "'a\\ud800'".toList := by decide +kernel

example : quoted "a\n\x7f" = "'a\\n\\x7f'" := by decide +kernel

end VersionRange
