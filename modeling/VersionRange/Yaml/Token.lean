import VersionRange.Yaml.Scalar

/-!
# The tokens of YAML

A text is cut into tokens before its structure is looked at.  This file has the
tokens and the readers of those that are words: directives, anchors and tags.
The end of the text has no token of its own.
-/

namespace VersionRange.Yaml

/-- What a line that begins with a percent sign announces. -/
inductive Directive
  /-- The major number of the version of YAML. -/
  | version (major : Nat)
  /-- The text that a tag handle stands for. -/
  | handle (name : List Char) (text : List Char)
  | unknown
  deriving DecidableEq

inductive Token
  | directive (directive : Directive)
  | documentStart
  | documentEnd
  | blockSequenceStart
  | blockMappingStart
  /-- The end of a block sequence or of a block mapping. -/
  | blockEnd
  | flowSequenceStart
  | flowSequenceEnd
  | flowMappingStart
  | flowMappingEnd
  | blockEntry
  | flowEntry
  | key
  | value
  | alias (name : List Char)
  | anchor (name : List Char)
  | tag (handle : Option (List Char)) (suffix : List Char)
  | scalar (text : List Char) (plain : Bool)
  deriving DecidableEq

open Reading

/-- The characters of the names of anchors, directives and tag handles. -/
def isNameChar (c : Char) : Bool :=
  c.isAlphanum || c = '-' || c = '_'

def readName : Reading (List Char) := do
  let name ← takeWhile isNameChar
  if name.isEmpty then malformed
  return name

/-- Reads the name behind an ampersand or an asterisk. -/
def readAnchor : Reading (List Char) := do
  forward 1
  let name ← readName
  let next ← peek
  if endsWord next || next.any ("?:,]\x7d%@\x60".toList.contains ·) then return name
  else malformed

/-- The characters that stand for themselves in a tag. -/
def isTagChar (c : Char) : Bool :=
  c.isAlphanum || "-;/?:@&=+$,_.!~*'()[]".toList.contains c

/-- Takes the bytes that are written as two hexadecimal digits behind a percent
sign. -/
def readTagBytes : Nat → List UInt8 → Reading (List UInt8)
  | 0, bytes => return bytes
  | steps + 1, bytes => do
    if (← peek) ≠ some '%' then return bytes
    forward 1
    let digits := (← get).rest.take 2
    match Json.hexNumber? digits with
    | none => malformed
    | some number =>
      if digits.length < 2 then malformed
      forward 2
      readTagBytes steps (bytes ++ [UInt8.ofNat number])

/-- Takes the characters of a tag; escaped bytes are UTF-8. -/
def readTagChars : Nat → List Char → Reading (List Char)
  | 0, taken => return taken
  | steps + 1, taken => do
    let taken := taken ++ (← takeWhile isTagChar)
    if (← peek) = some '%' then
      match decodeUtf8 (← readTagBytes ((← get).rest.length) []) with
      | .ok chars => readTagChars steps (taken ++ chars)
      | .error _ => malformed
    else if taken.isEmpty then malformed
    else return taken

def readTagText : Reading (List Char) := do
  readTagChars ((← get).rest.length + 1) []

/-- Reads a tag handle: an exclamation mark, or a name between two of them. -/
def readHandle : Reading (List Char) := do
  if (← peek) ≠ some '!' then malformed
  forward 1
  if (← peek) = some ' ' then return ['!']
  let name ← takeWhile isNameChar
  if (← peek) ≠ some '!' then malformed
  forward 1
  return '!' :: name ++ ['!']

/-- Reads a tag: in full between angle brackets, a lone exclamation mark, or a
handle and a suffix. -/
def readTag : Reading Token := do
  let tag ← match ← peekAt 1 with
    | some '<' => do
      forward 2
      let suffix ← readTagText
      if (← peek) ≠ some '>' then malformed
      forward 1
      pure (Token.tag none suffix)
    | next =>
      if endsWord next then do
        forward 1
        pure (Token.tag none ['!'])
      else do
        let word := ((← get).rest.drop 1).takeWhile fun c => !endsTag (some c)
        let handle ← if word.contains '!' then readHandle else do
          forward 1
          pure ['!']
        pure (Token.tag (some handle) (← readTagText))
  if !endsTag (← peek) then malformed
  return tag

def readDirectiveNumber : Reading Nat := do
  let digits ← takeWhile Char.isDigit
  if digits.isEmpty then malformed
  match readNumeral digits with
  | .ok n => return n
  | .error fault => throw (.badValue (.numeral fault))

def readVersionDirective : Reading Directive := do
  let major ← readDirectiveNumber
  if (← peek) ≠ some '.' then malformed
  forward 1
  let _ ← readDirectiveNumber
  if !endsTag (← peek) then malformed
  return .version major

def readHandleDirective : Reading Directive := do
  let name ← readHandle
  if (← peek) ≠ some ' ' then malformed
  skipWhile (· = ' ')
  let text ← readTagText
  if !endsTag (← peek) then malformed
  return .handle name text

/-- Reads a directive whose percent sign is here, up to the end of the line. -/
def readDirective : Reading Directive := do
  forward 1
  let name ← readName
  if !endsTag (← peek) then malformed
  let directive ←
    if name = "YAML".toList then do
      skipWhile (· = ' ')
      readVersionDirective
    else if name = "TAG".toList then do
      skipWhile (· = ' ')
      readHandleDirective
    else do
      skipWhile fun c => !isBreak c
      pure .unknown
  skipWhile (· = ' ')
  skipComment
  if !endsLine (← peek) then malformed
  let _ ← lineBreak
  return directive

end VersionRange.Yaml
